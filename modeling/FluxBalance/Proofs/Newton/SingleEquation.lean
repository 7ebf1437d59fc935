import FluxBalance.Proofs.Newton.Affine
import FluxBalance.Proofs.Newton.Bounds

/-!
# One equation as a system

A partial function of one variable is solved by the iteration for one unknown, and as a system with
a single equation. In exact arithmetic the two iterations visit the same points: the Jacobian has
one entry, the difference quotient, and its inverse takes the place of the division by it.

They differ in how they give up. The iteration for one unknown stops when the interval keeps an
iterate where it is; the system goes on from there. But then it stays there: the point after an
iterate depends on the iterate alone, and the value there is not small. So both return the same
point, or none.

## Main definitions and results

* `HasSlope`, `Proposes`: the difference quotient of a function and the step that it proposes;
* `scalarIterate_eq_ok_iff_systemIterate`: round by round both iterations return the same;
* `solveScalar_eq_ok_iff_solveSystem`: the two solvers agree.
-/

namespace FluxBalance.Newton

open FluxBalance.Computation

variable {ν α σ : Type} [Scalar α] [Scalar.Exact α]

/-! ### The points of both iterations -/

/-- The function has the difference quotient `d` at `x`. -/
def HasSlope (f : α → Except (Error α) α) (step x d : α) : Prop :=
  ∃ a b, f (x + absoluteStep x step) = .ok a ∧ f (x - absoluteStep x step) = .ok b ∧
    divide (a - b) (Scalar.two * absoluteStep x step) = .ok d

/-- From `x`, where the function has the value `y`, the method would go to `z`. -/
def Proposes (f : α → Except (Error α) α) (step x y z : α) : Prop :=
  ∃ d, HasSlope f step x d ∧ d ≠ 0 ∧ z = x - y / d

variable {f : α → Except (Error α) α} {bounds : Option (Interval α)} {margin step x y : α}
  {s s' : σ}

omit [Scalar.Exact α] in
theorem HasSlope.unique {d d' : α} (h : HasSlope f step x d) (h' : HasSlope f step x d') :
    d = d' := by
  obtain ⟨a, b, ha, hb, hd⟩ := h
  obtain ⟨a', b', ha', hb', hd'⟩ := h'
  obtain rfl : a = a' := Except.ok.inj (ha.symm.trans ha')
  obtain rfl : b = b' := Except.ok.inj (hb.symm.trans hb')
  exact Except.ok.inj (hd.symm.trans hd')

omit [Scalar.Exact α] in
theorem Proposes.unique {z z' : α} (h : Proposes f step x y z) (h' : Proposes f step x y z') :
    z = z' := by
  obtain ⟨d, hd, -, rfl⟩ := h
  obtain ⟨d', hd', -, rfl⟩ := h'
  rw [hd.unique hd']

/-! ### The iteration for one unknown -/

/-- A function that does not look at the state is evaluated exactly if it has a value. -/
private theorem evaluateAt_lift_eq_ok_iff :
    evaluateAt (fun x => lift (f x)) x s = .ok y s' ↔ f x = .ok y ∧ s = s' := by
  constructor
  · exact fun h => lift_eq_ok_iff.mp (evaluateAt_eq_ok h).1
  · rintro ⟨hy, rfl⟩
    simp only [evaluateAt, hy]
    exact if_pos (Scalar.Exact.isFinite_eq y)

/-- What `centralDifference` finds is the difference quotient of `HasSlope`. -/
private theorem centralDifference_eq_ok_iff {d : α} :
    centralDifference (fun x => lift (f x)) x step s = .ok d s' ↔ HasSlope f step x d ∧ s = s' := by
  simp only [centralDifference, bind_eq_ok, evaluateAt_lift_eq_ok_iff, lift_eq_ok_iff]
  constructor
  · rintro ⟨a, _, ⟨ha, rfl⟩, b, _, ⟨hb, rfl⟩, hd, rfl⟩
    exact ⟨⟨a, b, ha, hb, hd⟩, rfl⟩
  · rintro ⟨⟨a, b, ha, hb, hd⟩, rfl⟩
    exact ⟨a, s, ⟨ha, rfl⟩, b, s, ⟨hb, rfl⟩, hd, rfl⟩

/-- The next iterate for one unknown is the proposed point, moved into the interval; but the
interval must not have kept the iterate where it was. -/
private theorem scalarUpdate_eq_ok_iff {next : α} :
    scalarUpdate (fun x => lift (f x)) bounds step x y s = .ok next s' ↔
      (∃ z, Proposes f step x y z ∧ next = clamp z bounds ∧ (next = x → next = z)) ∧ s = s' := by
  simp only [scalarUpdate, bind_eq_ok, centralDifference_eq_ok_iff, guard_eq_ok, pure_eq_ok]
  simp only [Scalar.Exact.isFinite_eq, Scalar.Exact.eq_iff, Bool.not_true, Bool.or_false,
    Bool.and_eq_true, Bool.not_eq_true', Bool.eq_false_iff, ne_eq, not_and, not_not]
  constructor
  · rintro ⟨d, _, ⟨hd, rfl⟩, hne, hkept, rfl, rfl⟩
    exact ⟨⟨_, ⟨d, hd, hne, rfl⟩, rfl, hkept⟩, rfl⟩
  · rintro ⟨⟨_, ⟨d, hd, hne, rfl⟩, rfl, hkept⟩, rfl⟩
    exact ⟨d, s, ⟨hd, rfl⟩, hne, hkept, rfl, rfl⟩

/-- One round of `scalarIterate`: the iterate is a root, or the point that it `Proposes`, clamped,
is the next one. -/
private theorem scalarIterate_eq_ok_iff {limit : Int} {n : Nat} {last : Option α} {x' : α} :
    scalarIterate (fun x => lift (f x)) margin limit bounds step (n + 1) last x s = .ok x' s' ↔
      ∃ y, f x = .ok y ∧ ((Scalar.lt (Scalar.abs y) margin = true ∧ x = x' ∧ s = s') ∨
        (¬Scalar.lt (Scalar.abs y) margin = true ∧
          ∃ z, Proposes f step x y z ∧ (clamp z bounds = x → clamp z bounds = z) ∧
            scalarIterate (fun x => lift (f x)) margin limit bounds step n (some (Scalar.abs y))
              (clamp z bounds) s = .ok x' s')) := by
  simp only [scalarIterate, bind_eq_ok, evaluateAt_lift_eq_ok_iff, pure_or_eq_ok,
    scalarUpdate_eq_ok_iff]
  constructor
  · rintro ⟨y, _, ⟨hy, rfl⟩, hsmall | ⟨hlarge, _, _, ⟨⟨z, hz, rfl, hkept⟩, rfl⟩, h⟩⟩
    · exact ⟨y, hy, .inl hsmall⟩
    · exact ⟨y, hy, .inr ⟨hlarge, z, hz, hkept, h⟩⟩
  · rintro ⟨y, hy, hsmall | ⟨hlarge, z, hz, hkept, h⟩⟩
    · exact ⟨y, s, ⟨hy, rfl⟩, .inl hsmall⟩
    · exact ⟨y, s, ⟨hy, rfl⟩, .inr ⟨hlarge, _, s, ⟨⟨z, hz, rfl, hkept⟩, rfl⟩, h⟩⟩

/-! ### The system -/

omit [Scalar.Exact α] in
/-- The single entry of a matrix with one column of one number. -/
private theorem entry_single (d : α) : (ofColumns 1 [[d]]).entry 0 0 = d :=
  entry_ofColumns Nat.one_pos (show [[d]][0]? = some [d] from rfl) rfl

/-- A matrix with one entry is inverted unless the entry is zero. -/
private theorem success_single_iff {d : α} :
    (ofColumns 1 [[d]]).invertSquare.1 = .success ↔ d ≠ 0 := by
  have hrows : (ofColumns 1 [[d]]).rows = 1 := rfl
  unfold DenseMatrix.invertSquare
  dsimp only
  rw [if_neg (by rw [hrows]; decide), DenseMatrix.allFinite_eq_true, if_neg (by simp), if_pos hrows,
    entry_single]
  split
  · rename_i h
    simp [Scalar.Exact.eq_iff.mp h]
  · rename_i h
    simpa [Scalar.Exact.eq_iff] using h

/-- The update is the value divided by the difference quotient, in the other direction. -/
private theorem newtonUpdate_single {d : α} (hd : d ≠ 0) :
    newtonUpdate (ofColumns 1 [[d]]).invertSquare.2 [y] = [-(y / d)] := by
  obtain ⟨hrows, hcols, hundoes⟩ := DenseMatrix.undoes_of_invertSquare
    (A := ofColumns 1 [[d]]) (R := (ofColumns 1 [[d]]).invertSquare.2) rfl
    (Prod.ext (success_single_iff.mpr hd) rfl)
  have hentry := hundoes (fun l => ([y][l]?).getD 0) 0 Nat.one_pos
  rw [DenseMatrix.dot, show (ofColumns 1 [[d]]).cols = 1 from rfl, Finset.sum_range_one,
    entry_single] at hentry
  rw [newtonUpdate_eq hcols, hrows]
  exact congrArg (fun z => [-z]) (eq_div_of_mul_eq hd ((mul_comm _ _).trans hentry))

/-- For one unknown `moveBy` is the step of the iteration for one unknown. -/
private theorem moveBy_single (bounds : Bounds ν α) (v : ν) (d : α) :
    moveBy bounds [(v, x)] [-(y / d)] 1 = [(v, clamp (x - y / d) (bounds v))] := by
  show [(v, clamp (x + 1 * -(y / d)) (bounds v))] = _
  rw [one_mul, sub_eq_add_neg]

section

variable {r : Residual ν α σ} {v : ν} (hr : ∀ y, r.value [(v, y)] = lift (f y))

include hr

/-- A single residual is evaluated exactly if its function has a value. -/
private theorem evaluateAll_single_eq_ok_iff {values : List α} :
    evaluateAll [(v, x)] [r] s = .ok values s' ↔ ∃ y, f x = .ok y ∧ values = [y] ∧ s = s' := by
  simp only [evaluateAll, bind_eq_ok, pure_eq_ok, evaluate_eq_ok_iff, hr, lift_eq_ok_iff,
    Scalar.Exact.isFinite_eq, and_true]
  constructor
  · rintro ⟨y, _, ⟨hy, rfl⟩, _, _, ⟨rfl, rfl⟩, rfl, rfl⟩
    exact ⟨y, hy, rfl, rfl⟩
  · rintro ⟨y, hy, rfl, rfl⟩
    exact ⟨y, s, ⟨hy, rfl⟩, [], s, ⟨rfl, rfl⟩, rfl, rfl⟩

/-- The Jacobian of a single residual holds the difference quotient of `HasSlope`. -/
private theorem jacobian_single_eq_ok_iff {J : DenseMatrix α} :
    jacobian [r] step [(v, x)] s = .ok J s' ↔
      ∃ d, HasSlope f step x d ∧ J = ofColumns 1 [[d]] ∧ s = s' := by
  have hset (z : α) : setAt [(v, x)] 0 z = [(v, z)] := rfl
  simp only [jacobian, jacobianColumns, jacobianColumn, bind_eq_ok, pure_eq_ok, hset,
    evaluateAll_single_eq_ok_iff hr]
  constructor
  · rintro ⟨_, _, ⟨column, _, ⟨_, _, ⟨a, ha, rfl, rfl⟩, _, _, ⟨b, hb, rfl, rfl⟩, hcolumn⟩, _, _,
      ⟨rfl, rfl⟩, rfl, rfl⟩, rfl, rfl⟩
    simp only [List.zip_cons_cons, List.zip_nil_right, List.mapM_cons, List.mapM_nil, bind_eq_ok,
      lift_eq_ok_iff, pure_eq_ok] at hcolumn
    obtain ⟨d, _, ⟨hd, rfl⟩, _, _, ⟨rfl, rfl⟩, rfl, rfl⟩ := hcolumn
    exact ⟨d, ⟨a, b, ha, hb, hd⟩, rfl, rfl⟩
  · rintro ⟨d, ⟨a, b, ha, hb, hd⟩, rfl, rfl⟩
    refine ⟨_, s, ⟨_, s, ⟨_, s, ⟨a, ha, rfl, rfl⟩, _, s, ⟨b, hb, rfl, rfl⟩, ?_⟩, _, s, ⟨rfl, rfl⟩,
      rfl, rfl⟩, rfl, rfl⟩
    simp only [List.zip_cons_cons, List.zip_nil_right, List.mapM_cons, List.mapM_nil, bind_eq_ok,
      lift_eq_ok_iff, pure_eq_ok]
    exact ⟨d, s, ⟨hd, rfl⟩, _, s, ⟨rfl, rfl⟩, rfl, rfl⟩

/-- The update of the system is the proposed point, moved into the interval. -/
private theorem systemUpdate_single_eq_ok_iff {cfg : Config α} {bounds : Bounds ν α}
    (hdamping : cfg.damping = false) {x' : Assignment ν α} :
    systemUpdate [r] cfg bounds [(v, x)] [y] s = .ok x' s' ↔
      ∃ z, Proposes f cfg.step x y z ∧ x' = [(v, clamp z (bounds v))] ∧ s = s' := by
  simp only [systemUpdate, bind_eq_ok, jacobian_single_eq_ok_iff hr, guard_eq_ok, hdamping,
    Bool.false_eq_true, if_false, pure_eq_ok]
  constructor
  · rintro ⟨_, _, ⟨d, hd, rfl, rfl⟩, hne, rfl, rfl⟩
    rw [not_not, success_single_iff] at hne
    exact ⟨_, ⟨d, hd, hne, rfl⟩, by rw [newtonUpdate_single hne, moveBy_single], rfl⟩
  · rintro ⟨_, ⟨d, hd, hne, rfl⟩, rfl, rfl⟩
    exact ⟨_, s, ⟨d, hd, rfl, rfl⟩, not_not.mpr (success_single_iff.mpr hne),
      by rw [newtonUpdate_single hne, moveBy_single], rfl⟩

/-- One round of `systemIterate` with a single residual, beside `scalarIterate_eq_ok_iff`. -/
private theorem systemIterate_single_eq_ok_iff {cfg : Config α} {bounds : Bounds ν α}
    (hdamping : cfg.damping = false) {n : Nat} {last : Option α} {x' : Assignment ν α} :
    systemIterate [r] cfg bounds (n + 1) last [(v, x)] s = .ok x' s' ↔
      ∃ y, f x = .ok y ∧ ((Scalar.lt (Scalar.abs y) cfg.margin = true ∧ [(v, x)] = x' ∧ s = s') ∨
        (¬Scalar.lt (Scalar.abs y) cfg.margin = true ∧
          ∃ z, Proposes f cfg.step x y z ∧ systemIterate [r] cfg bounds n (some (Scalar.abs y))
            [(v, clamp z (bounds v))] s = .ok x' s')) := by
  have hmax (y : α) : Scalar.maxAbs [y] = Scalar.abs y := rfl
  simp only [systemIterate, bind_eq_ok, evaluateAll_single_eq_ok_iff hr, pure_or_eq_ok]
  constructor
  · rintro ⟨_, _, ⟨y, hy, rfl, rfl⟩, hsmall | ⟨hlarge, _, _, hnext, h⟩⟩
    · exact ⟨y, hy, .inl hsmall⟩
    · obtain ⟨z, hz, rfl, rfl⟩ := (systemUpdate_single_eq_ok_iff hr hdamping).mp hnext
      exact ⟨y, hy, .inr ⟨hlarge, z, hz, h⟩⟩
  · rintro ⟨y, hy, hsmall | ⟨hlarge, z, hz, h⟩⟩
    · exact ⟨[y], s, ⟨y, hy, rfl, rfl⟩, .inl hsmall⟩
    · exact ⟨[y], s, ⟨y, hy, rfl, rfl⟩, .inr ⟨hlarge, _, s,
        (systemUpdate_single_eq_ok_iff hr hdamping).mpr ⟨z, hz, rfl, rfl⟩, h⟩⟩

/-! ### Agreement -/

/-- Once the interval keeps an iterate where it is, the system never leaves it, and does not
converge. -/
private theorem systemIterate_ne_ok_of_kept {cfg : Config α} {bounds : Bounds ν α}
    (hdamping : cfg.damping = false) (hy : f x = .ok y)
    (hlarge : ¬Scalar.lt (Scalar.abs y) cfg.margin = true) {z : α}
    (hz : Proposes f cfg.step x y z) (hkept : clamp z (bounds v) = x) {x' : Assignment ν α} :
    ∀ {n : Nat} {last : Option α}, systemIterate [r] cfg bounds n last [(v, x)] s ≠ .ok x' s'
  | 0, _, h => by cases h
  | n + 1, _, h => by
    obtain ⟨y', hy', h⟩ := (systemIterate_single_eq_ok_iff hr hdamping).mp h
    obtain rfl : y = y' := Except.ok.inj (hy.symm.trans hy')
    obtain ⟨hsmall, -⟩ | ⟨-, z', hz', h⟩ := h
    · exact hlarge hsmall
    · rw [← hz.unique hz', hkept] at h
      exact systemIterate_ne_ok_of_kept hdamping hy hlarge hz hkept h

/-- **Both iterations return the same point or none**, step by step. -/
theorem scalarIterate_eq_ok_iff_systemIterate {cfg : Config α} {bounds : Bounds ν α}
    (hdamping : cfg.damping = false) {x' : α} :
    ∀ {n : Nat} (last last' : Option α) {x : α} {s : σ},
      scalarIterate (fun x => lift (f x)) cfg.margin cfg.limit (bounds v) cfg.step n last x s =
          .ok x' s' ↔
        systemIterate [r] cfg bounds n last' [(v, x)] s = .ok [(v, x')] s'
  | 0, _, _, _, _ => iff_of_false (fun h => by cases h) (fun h => by cases h)
  | n + 1, _, _, x, s => by
    rw [scalarIterate_eq_ok_iff, systemIterate_single_eq_ok_iff hr hdamping]
    refine exists_congr fun y => and_congr_right fun hy => or_congr (by simp) ?_
    refine and_congr_right fun hlarge => exists_congr fun z => and_congr_right fun hz => ?_
    rw [scalarIterate_eq_ok_iff_systemIterate hdamping _ (some (Scalar.abs y))]
    refine and_iff_right_of_imp fun h hkept => ?_
    rw [hkept] at h
    exact absurd h (systemIterate_ne_ok_of_kept hr hdamping hy hlarge hz hkept)

end

/-- **The two solvers agree.** In exact arithmetic, and with an interval that is not empty, a
partial function of one variable is solved by the iteration for one unknown exactly if it is solved
by the undamped iteration as a system with a single equation, and at the same point. -/
theorem solveScalar_eq_ok_iff_solveSystem {F : Assignment ν α → Except (Error α) α}
    {v : ν} (hF : ∀ y, F [(v, y)] = f y) (name : EquationName) (cfg : Config α)
    (hdamping : cfg.damping = false) (bounds : Bounds ν α) (hbounds : Proper (bounds v))
    (guess x : α) (s s' : σ) :
    solveScalar (fun y => lift (f y)) guess cfg.margin cfg.limit (bounds v) cfg.step s =
        .ok x s' ↔
      solveSystem [.ofFunction name F] [(v, guess)] cfg bounds s = .ok [(v, x)] s' := by
  have hr : ∀ y, (Residual.ofFunction (σ := σ) name F).value [(v, y)] = lift (f y) :=
    fun y => congrArg lift (hF y)
  have hproper : ∀ lo hi, bounds v = some (lo, hi) → Scalar.lt hi lo = false :=
    fun lo hi h => le_eq_true_iff.mp (hbounds lo hi h)
  have hlen : [Residual.ofFunction (σ := σ) name F].length = [(v, guess)].length := rfl
  rw [solveScalar_eq_ok_iff, solveSystem_eq_ok_iff, and_iff_right hproper, and_iff_right hlen,
    scalarIterate_eq_ok_iff_systemIterate hr hdamping none none]
  rfl

/-- Half of a number and one more, whose root lies below zero. -/
def halfMore (x : Rat) : Except (Error Rat) Rat := .ok (x / 2 + 1)

/-- The square root of two is found between zero and three both ways; and neither way a root is
found where the interval lies above it. -/
theorem agreement_squareLessTwo :
    (∃ x s', solveScalar (fun y => lift (squareLessTwo y)) 5 (mkRat 1 100) 50 (some (0, 3))
        defaultStep () = .ok x s' ∧
      solveSystem [.ofFunction (.position 0) fun u => squareLessTwo (u.headD ("x", 0)).2]
        [("x", 5)] (.ofMargin (mkRat 1 100) 50) (fun _ => some (0, 3)) () = .ok [("x", x)] s') ∧
    ∀ x s', solveSystem [.ofFunction (.position 0) fun u => halfMore (u.headD ("x", 0)).2]
      [("x", 2)] (.ofMargin (mkRat 1 100) 50) (fun _ => some (0, 3)) () ≠ .ok [("x", x)] s' := by
  have hproper : Proper (some ((0 : Rat), (3 : Rat))) := by
    rintro _ _ ⟨⟩
    decide
  have hfound : succeeded (solveScalar (σ := Unit) (fun x => lift (squareLessTwo x)) 5
      (mkRat 1 100) 50 (some (0, 3)) defaultStep ()) = true := by
    decide +kernel
  have hkept : succeeded (solveScalar (σ := Unit) (fun x => lift (halfMore x)) 2
      (mkRat 1 100) 50 (some (0, 3)) defaultStep ()) = false := by
    decide +kernel
  obtain ⟨x, s, hx⟩ := succeeded_eq_true_iff.mp hfound
  refine ⟨⟨x, s, hx, ?_⟩, fun y s' hy => ?_⟩
  · exact (solveScalar_eq_ok_iff_solveSystem (fun _ => rfl) (.position 0)
      (.ofMargin (mkRat 1 100) 50) rfl (fun _ => some (0, 3)) hproper 5 x () s).mp hx
  · obtain ⟨_, _, hnone⟩ := succeeded_eq_false_iff.mp hkept
    have hsome := (solveScalar_eq_ok_iff_solveSystem (f := halfMore) (fun _ => rfl) (.position 0)
      (.ofMargin (mkRat 1 100) 50) rfl (fun _ => some (0, 3)) hproper 2 y () s').mpr hy
    cases hnone.symm.trans hsome

end FluxBalance.Newton
