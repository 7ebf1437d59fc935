import FluxBalance.Proofs.DenseMatrix.TwoSided
import FluxBalance.Proofs.Newton.SingleEquation

/-!
# Newton steps by name

A function of the values by name does not see in which order the unknowns are listed. What a Newton
step does for such functions can be said without positions: a slope belongs to a function and an
unknown, and a direction `Corrects` the functions if, along it, their slopes add up to minus their
values. In exact arithmetic the Jacobian is inverted exactly if zero is the only direction along
which all slopes add up to zero, and then the update is the one direction that corrects the
functions.

## Main definitions and results

* `NamedFunction`, `namedResiduals`: functions of the unknowns by name, and the residuals that they
  are;
* `Regular`, `Tabulates.success_iff`: slopes of full rank, for which the Jacobian is inverted;
* `Corrects`, `Tabulates.exists_corrects`: the update is the direction that corrects the functions.
-/

namespace FluxBalance.Newton

open FluxBalance.Computation

variable {ν α σ : Type} [DecidableEq ν]

/-! ### Values by name -/

/-- A function of the values of the unknowns, which it looks up by their names. -/
abbrev NamedFunction (ν α : Type) := (ν → Option α) → Except (Error α) α

/-- The values at a point, by name. -/
def byName (x : Assignment ν α) (k : ν) : Option α := (x.find? fun u => u.1 == k).map Prod.snd

/-- Every unknown is listed once. -/
def Distinct (x : Assignment ν α) : Prop := (x.map Prod.fst).Nodup

instance (x : Assignment ν α) : Decidable (Distinct x) :=
  inferInstanceAs (Decidable (x.map Prod.fst).Nodup)

omit [DecidableEq ν] in
theorem Distinct.perm {x y : Assignment ν α} (h : Distinct x) (hxy : x.Perm y) : Distinct y :=
  (hxy.map Prod.fst).nodup_iff.mp h

private theorem byName_eq_some_iff {x : Assignment ν α} (h : Distinct x) {k : ν} {v : α} :
    byName x k = some v ↔ (k, v) ∈ x := by
  induction x with
  | nil => simp [byName]
  | cons u x ih =>
    obtain ⟨hu, hx⟩ := List.nodup_cons.mp h
    rw [byName, List.find?_cons]
    by_cases hk : u.1 = k
    · subst hk
      rw [beq_self_eq_true, List.mem_cons]
      constructor
      · rintro ⟨⟩
        exact .inl rfl
      · rintro (heq | hmem)
        · exact congrArg some (congrArg Prod.snd heq).symm
        · exact absurd (List.mem_map_of_mem (f := Prod.fst) hmem) hu
    · rw [beq_eq_false_iff_ne.mpr hk, List.mem_cons]
      refine (ih hx).trans (or_iff_right ?_).symm
      rintro rfl
      exact hk rfl

/-- The order in which the unknowns are listed does not matter. -/
theorem byName_eq_of_perm {x y : Assignment ν α} (h : Distinct x) (hxy : x.Perm y) :
    byName x = byName y := by
  funext k
  refine Option.ext fun v => ?_
  rw [byName_eq_some_iff h, byName_eq_some_iff (h.perm hxy), hxy.mem_iff]

/-- To change the value at a position is to change the value of the unknown that is listed there. -/
private theorem byName_setAt {x : Assignment ν α} (h : Distinct x) {j : Nat} {u : ν × α}
    (hu : x[j]? = some u) (value : α) :
    byName (setAt x j value) = Function.update (byName x) u.1 (some value) := by
  induction x generalizing j with
  | nil => cases hu
  | cons w x ih =>
    obtain ⟨hw, hx⟩ := List.nodup_cons.mp h
    funext k
    cases j with
    | zero =>
      obtain rfl : w = u := Option.some.inj hu
      by_cases hk : w.1 = k
      · subst hk
        simp [byName, setAt]
      · rw [Function.update_of_ne (Ne.symm hk)]
        simp [byName, setAt, hk]
    | succ j =>
      have hu : x[j]? = some u := hu
      have hne : w.1 ≠ u.1 := fun heq =>
        hw (heq ▸ List.mem_map_of_mem (f := Prod.fst) (List.mem_of_getElem? hu))
      have htail := congrFun (ih hx hu) k
      by_cases hk : w.1 = k
      · subst hk
        rw [Function.update_of_ne hne]
        simp [byName, setAt]
      · have hskip : byName (setAt (w :: x) (j + 1) value) k = byName (setAt x j value) k := by
          simp [byName, setAt, hk]
        rw [hskip, htail, Function.update_apply, Function.update_apply]
        simp [byName, hk]

/-! ### Values and slopes -/

variable [Scalar α] [Scalar.Exact α]

/-- The function has the slope `d` in the direction of an unknown, given with its value. -/
def SlopeAlong (f : NamedFunction ν α) (step : α) (m : ν → Option α) (u : ν × α) (d : α) : Prop :=
  HasSlope (fun t => f (Function.update m u.1 (some t))) step u.2 d

/-- The residuals that functions of the values by name are, with the names of their equations. -/
def namedResiduals (fs : List (EquationName × NamedFunction ν α)) : List (Residual ν α σ) :=
  fs.map fun f => .ofFunction f.1 fun x => f.2 (byName x)

variable {fs : List (EquationName × NamedFunction ν α)} {x : Assignment ν α} {step : α} {s s' : σ}

/-- Evaluating `namedResiduals` succeeds exactly if all their functions have values, and the state
stays as it is. -/
theorem evaluateAll_named_eq_ok_iff :
    ∀ {fs : List (EquationName × NamedFunction ν α)} {values : List α} {s s' : σ},
      evaluateAll x (namedResiduals fs) s = .ok values s' ↔
        List.Forall₂ (fun f y => f (byName x) = .ok y) (fs.map Prod.snd) values ∧ s = s'
  | [], values, s, s' => by
    rw [List.map_nil, List.forall₂_nil_left_iff]
    exact pure_eq_ok.trans (and_congr_left' eq_comm)
  | f :: fs, values, s, s' => by
    have hevaluate (y : α) (t : σ) : (Residual.ofFunction (σ := σ) f.1
        fun x => f.2 (byName x)).evaluate x s = .ok y t ↔ f.2 (byName x) = .ok y ∧ s = t := by
      rw [evaluate_eq_ok_iff, and_iff_left (Scalar.Exact.isFinite_eq y)]
      exact lift_eq_ok_iff
    rw [namedResiduals, List.map_cons, evaluateAll, List.map_cons, List.forall₂_cons_left_iff]
    simp only [bind_eq_ok, hevaluate, pure_eq_ok]
    constructor
    · rintro ⟨y, _, ⟨hy, rfl⟩, ys, _, hys, rfl, rfl⟩
      obtain ⟨hvalues, rfl⟩ := evaluateAll_named_eq_ok_iff.mp hys
      exact ⟨⟨y, ys, hy, hvalues, rfl⟩, rfl⟩
    · rintro ⟨⟨y, ys, hy, hys, rfl⟩, rfl⟩
      exact ⟨y, s, ⟨hy, rfl⟩, ys, s, evaluateAll_named_eq_ok_iff.mpr ⟨hys, rfl⟩, rfl, rfl⟩

omit [Scalar.Exact α] in
/-- Quotients of the values above and below are slopes. -/
private theorem forall₂_hasSlope_iff (gs : List (α → Except (Error α) α)) (step t : α)
    (slopes : List α) : List.Forall₂ (fun g d => HasSlope g step t d) gs slopes ↔ ∃ above below,
      List.Forall₂ (fun g a => g (t + absoluteStep t step) = .ok a) gs above ∧
      List.Forall₂ (fun g b => g (t - absoluteStep t step) = .ok b) gs below ∧
      List.Forall₂ (fun p d => divide (p.1 - p.2) (Scalar.two * absoluteStep t step) = .ok d)
        (above.zip below) slopes := by
  constructor
  · intro h
    induction h with
    | nil => exact ⟨[], [], .nil, .nil, .nil⟩
    | cons hd _ ih =>
      obtain ⟨a, b, ha, hb, hd⟩ := hd
      obtain ⟨above, below, habove, hbelow, hslopes⟩ := ih
      exact ⟨a :: above, b :: below, .cons ha habove, .cons hb hbelow, .cons hd hslopes⟩
  · rintro ⟨above, below, habove, hbelow, hslopes⟩
    induction habove generalizing below slopes with
    | nil =>
      cases hbelow
      cases hslopes
      exact .nil
    | cons ha _ ih =>
      cases hbelow with
      | cons hb hbelow =>
        cases hslopes with
        | cons hd hslopes => exact .cons ⟨_, _, ha, hb, hd⟩ (ih _ _ hbelow hslopes)

/-- A column of the Jacobian holds the slopes in the direction of an unknown. -/
private theorem jacobianColumn_named_eq_ok_iff (hx : Distinct x) {j : Nat} {u : ν × α}
    (hu : x[j]? = some u) {column : List α} :
    jacobianColumn (namedResiduals fs) step x j u.2 s = .ok column s' ↔
      List.Forall₂ (fun f d => SlopeAlong f step (byName x) u d) (fs.map Prod.snd) column ∧
        s = s' := by
  have hslopes := forall₂_hasSlope_iff
    ((fs.map Prod.snd).map fun f t => f (Function.update (byName x) u.1 (some t))) step u.2 column
  simp only [List.forall₂_map_left_iff] at hslopes
  simp only [jacobianColumn, bind_eq_ok, evaluateAll_named_eq_ok_iff, byName_setAt hx hu,
    mapM_lift_eq_ok_iff, List.forall₂_map_left_iff, SlopeAlong, hslopes]
  constructor
  · rintro ⟨above, _, ⟨habove, rfl⟩, below, _, ⟨hbelow, rfl⟩, hquotients, rfl⟩
    exact ⟨⟨above, below, habove, hbelow, hquotients⟩, rfl⟩
  · rintro ⟨⟨above, below, habove, hbelow, hquotients⟩, rfl⟩
    exact ⟨above, s, ⟨habove, rfl⟩, below, s, ⟨hbelow, rfl⟩, hquotients, rfl⟩

/-- The columns of the Jacobian are the difference quotients `SlopeAlong` the unknowns. -/
private theorem jacobianColumns_named_eq_ok_iff (hx : Distinct x) :
    ∀ {ys : List (ν × α)} {j : Nat} {columns : List (List α)} {s s' : σ}, x.drop j = ys →
      (jacobianColumns (namedResiduals fs) step x j ys s = .ok columns s' ↔
        List.Forall₂ (fun u column => List.Forall₂
          (fun f d => SlopeAlong f step (byName x) u d) (fs.map Prod.snd) column) ys columns ∧
          s = s')
  | [], j, columns, s, s', _ => by
    rw [List.forall₂_nil_left_iff]
    exact pure_eq_ok.trans (and_congr_left' eq_comm)
  | (k, xj) :: ys, j, columns, s, s', hys => by
    have hu : x[j]? = some (k, xj) := by
      rw [← Nat.add_zero j, ← List.getElem?_drop, hys]
      rfl
    have hrest : x.drop (j + 1) = ys := by
      rw [← List.drop_drop, hys]
      rfl
    rw [jacobianColumns, List.forall₂_cons_left_iff]
    simp only [bind_eq_ok, jacobianColumn_named_eq_ok_iff hx hu, pure_eq_ok]
    constructor
    · rintro ⟨column, _, ⟨hcolumn, rfl⟩, rest, _, hcolumns, rfl, rfl⟩
      obtain ⟨hslopes, rfl⟩ := (jacobianColumns_named_eq_ok_iff hx hrest).mp hcolumns
      exact ⟨⟨column, rest, hcolumn, hslopes, rfl⟩, rfl⟩
    · rintro ⟨⟨column, rest, hcolumn, hcolumns, rfl⟩, rfl⟩
      exact ⟨column, s, ⟨hcolumn, rfl⟩, rest, s,
        (jacobianColumns_named_eq_ok_iff hx hrest).mpr ⟨hcolumns, rfl⟩, rfl, rfl⟩

/-! ### Jacobians -/

/-- The functions have slopes in the directions of all unknowns, namely the given ones. -/
def Slopes (gs : List (NamedFunction ν α)) (step : α) (x : Assignment ν α)
    (D : NamedFunction ν α → ν × α → α) : Prop :=
  ∀ f ∈ gs, ∀ u ∈ x, SlopeAlong f step (byName x) u (D f u)

/-- The matrix holds the slopes, with a row for each function and a column for each unknown. -/
structure Tabulates (J : DenseMatrix α) (gs : List (NamedFunction ν α)) (x : Assignment ν α)
    (D : NamedFunction ν α → ν × α → α) : Prop where
  rows : J.rows = gs.length
  cols : J.cols = x.length
  entry : ∀ {i j : Nat} {f : NamedFunction ν α} {u : ν × α}, gs[i]? = some f → x[j]? = some u →
    J.entry i j = D f u

/-- Where the functions have slopes, the Jacobian can be computed and holds them. -/
theorem exists_jacobian_of_slopes (hx : Distinct x) {D : NamedFunction ν α → ν × α → α}
    (h : Slopes (fs.map Prod.snd) step x D) (s : σ) :
    ∃ J, jacobian (namedResiduals fs) step x s = .ok J s ∧ Tabulates J (fs.map Prod.snd) x D := by
  obtain ⟨columns, hcolumns⟩ : ∃ columns, List.Forall₂ (fun u column => List.Forall₂
      (fun f d => SlopeAlong f step (byName x) u d) (fs.map Prod.snd) column) x columns :=
    exists_forall₂ fun u hu => exists_forall₂ fun f hf => ⟨D f u, h f hf u hu⟩
  have hJ := (jacobianColumns_named_eq_ok_iff hx (s := s) (List.drop_zero (l := x))).mpr
    ⟨hcolumns, rfl⟩
  refine ⟨_, bind_eq_ok.mpr ⟨columns, s, hJ, rfl⟩, by simp [namedResiduals, ofColumns], ?_, ?_⟩
  · simp [ofColumns, hcolumns.length_eq]
  · intro i j f u hi hj
    obtain ⟨column, hcolumn, hentries⟩ := exists_getElem?_of_forall₂ hcolumns hj
    obtain ⟨d, hd, hslope⟩ := exists_getElem?_of_forall₂ hentries hi
    have hlt : i < (namedResiduals (σ := σ) fs).length := by
      simpa [namedResiduals] using (List.getElem?_eq_some_iff.mp hi).1
    rw [entry_ofColumns hlt hcolumn hd]
    exact hslope.unique (h f (List.mem_of_getElem? hi) u (List.mem_of_getElem? hj))

/-- The Jacobian holds slopes. -/
theorem slopes_of_jacobian (hx : Distinct x) {J : DenseMatrix α}
    (h : jacobian (namedResiduals fs) step x s = .ok J s') :
    s = s' ∧ ∃ D, Slopes (fs.map Prod.snd) step x D ∧ Tabulates J (fs.map Prod.snd) x D := by
  have hslope : s = s' ∧ ∀ f ∈ fs.map Prod.snd, ∀ u ∈ x, ∃ d,
      SlopeAlong f step (byName x) u d := by
    obtain ⟨columns, s₁, hcolumns, hJ⟩ := bind_eq_ok.mp h
    obtain ⟨hslopes, rfl⟩ :=
      (jacobianColumns_named_eq_ok_iff hx (List.drop_zero (l := x))).mp hcolumns
    refine ⟨(pure_eq_ok.mp hJ).2, fun f hf u hu => ?_⟩
    obtain ⟨j, hj⟩ := List.mem_iff_getElem?.mp hu
    obtain ⟨i, hi⟩ := List.mem_iff_getElem?.mp hf
    obtain ⟨column, -, hcolumn⟩ := exists_getElem?_of_forall₂ hslopes hj
    obtain ⟨d, -, hd⟩ := exists_getElem?_of_forall₂ hcolumn hi
    exact ⟨d, hd⟩
  obtain ⟨rfl, hslope⟩ := hslope
  choose! D hD using hslope
  obtain ⟨J', hJ', htable⟩ := exists_jacobian_of_slopes hx hD s
  rw [h] at hJ'
  cases hJ'
  exact ⟨rfl, D, hD, htable⟩

/-! ### Directions -/

/-- What the slopes of a function add up to along a direction. -/
def rise (D : NamedFunction ν α → ν × α → α) (x : Assignment ν α) (d : ν × α → α)
    (f : NamedFunction ν α) : α := (x.map fun u => D f u * d u).sum

/-- Zero is the only direction along which all slopes add up to zero. -/
def Regular (gs : List (NamedFunction ν α)) (x : Assignment ν α)
    (D : NamedFunction ν α → ν × α → α) : Prop :=
  ∀ d, (∀ f ∈ gs, rise D x d f = 0) → ∀ u ∈ x, d u = 0

/-- Along the direction, the slopes add up to minus the values. -/
def Corrects (gs : List (NamedFunction ν α)) (x : Assignment ν α)
    (D : NamedFunction ν α → ν × α → α) (d : ν × α → α) : Prop :=
  ∀ f ∈ gs, ∃ y, f (byName x) = .ok y ∧ rise D x d f = -y

variable {gs gs' : List (NamedFunction ν α)} {x' : Assignment ν α}
  {D : NamedFunction ν α → ν × α → α} {d d' : ν × α → α}

omit [DecidableEq ν] in
private theorem rise_sub (f : NamedFunction ν α) :
    rise D x (fun u => d u - d' u) f = rise D x d f - rise D x d' f := by
  unfold rise
  induction x with
  | nil => exact (sub_self (0 : α)).symm
  | cons u x ih =>
    simp only [List.map_cons, List.sum_cons, ih]
    ring

/-- There is at most one direction that `Corrects` the functions. -/
theorem Corrects.unique (hreg : Regular gs x D) (h : Corrects gs x D d) (h' : Corrects gs x D d') :
    ∀ u ∈ x, d u = d' u := by
  have hzero : ∀ f ∈ gs, rise D x (fun u => d u - d' u) f = 0 := by
    intro f hf
    obtain ⟨y, hy, hrise⟩ := h f hf
    obtain ⟨y', hy', hrise'⟩ := h' f hf
    obtain rfl : y = y' := Except.ok.inj (hy.symm.trans hy')
    rw [rise_sub, hrise, hrise', sub_self]
  exact fun u hu => sub_eq_zero.mp (hreg _ hzero u hu)

/-! ### Directions and orders -/

omit [DecidableEq ν] in
/-- As a sum over the unknowns, `rise` does not depend on their order. -/
private theorem rise_perm (hx : x.Perm x') (f : NamedFunction ν α) : rise D x d f = rise D x' d f :=
  (hx.map _).sum_eq

omit [Scalar.Exact α] in
theorem Slopes.perm (h : Slopes gs step x D) (hgs : gs.Perm gs') (hdistinct : Distinct x)
    (hx : x.Perm x') : Slopes gs' step x' D := by
  intro f hf u hu
  rw [← byName_eq_of_perm hdistinct hx]
  exact h f (hgs.mem_iff.mpr hf) u (hx.mem_iff.mpr hu)

omit [DecidableEq ν] in
/-- Slopes that are `Regular` are so in every order of functions and unknowns. -/
theorem Regular.perm (h : Regular gs x D) (hgs : gs.Perm gs') (hx : x.Perm x') :
    Regular gs' x' D := by
  intro d hd u hu
  refine h d (fun f hf => ?_) u (hx.mem_iff.mpr hu)
  rw [rise_perm hx]
  exact hd f (hgs.mem_iff.mp hf)

/-- A direction that `Corrects` the functions does so in every order. -/
theorem Corrects.perm (h : Corrects gs x D d) (hgs : gs.Perm gs') (hdistinct : Distinct x)
    (hx : x.Perm x') : Corrects gs' x' D d := by
  intro f hf
  rw [← byName_eq_of_perm hdistinct hx, ← rise_perm hx]
  exact h f (hgs.mem_iff.mpr hf)

/-! ### Directions and matrices -/

section

variable {J : DenseMatrix α}

omit [Scalar α] [Scalar.Exact α] in
/-- An unknown is found at its position. -/
private theorem idxOf_of_getElem? [DecidableEq α] (hx : x.Nodup) {j : Nat} {u : ν × α}
    (hu : x[j]? = some u) : x.idxOf u = j := by
  obtain ⟨hj, rfl⟩ := List.getElem?_eq_some_iff.mp hu
  exact hx.idxOf_getElem j hj

omit [DecidableEq ν] in
/-- A row of the Jacobian times the entries of a direction is the `rise` along it. -/
private theorem Tabulates.dot_eq_rise (h : Tabulates J gs x D) {i : Nat} {f : NamedFunction ν α}
    (hi : gs[i]? = some f) {z : Nat → α} (hz : ∀ j u, x[j]? = some u → z j = d u) :
    J.dot i z = rise D x d f := by
  rw [DenseMatrix.dot, h.cols, Finset.sum_range, rise, ← Fin.sum_univ_fun_getElem]
  refine Finset.sum_congr rfl fun j _ => ?_
  have hj : x[(j : Nat)]? = some x[j] := List.getElem?_eq_getElem j.isLt
  rw [h.entry hi hj, hz j _ hj]
  rfl

omit [DecidableEq ν] in
/-- The homogeneous equations of the Jacobian say that no function rises. -/
theorem Tabulates.solves_iff (h : Tabulates J gs x D) {z : Nat → α}
    (hz : ∀ j u, x[j]? = some u → z j = d u) : J.Solves z ↔ ∀ f ∈ gs, rise D x d f = 0 := by
  constructor
  · intro hsolves f hf
    obtain ⟨i, hi⟩ := List.mem_iff_getElem?.mp hf
    rw [← h.dot_eq_rise hi hz]
    exact hsolves i (h.rows ▸ (List.getElem?_eq_some_iff.mp hi).1)
  · intro hrise i hi
    have hi : i < gs.length := h.rows ▸ hi
    rw [h.dot_eq_rise (List.getElem?_eq_getElem hi) hz]
    exact hrise _ (List.getElem_mem hi)

/-- **The Jacobian is inverted exactly if the functions are `Regular`.** -/
theorem Tabulates.success_iff (h : Tabulates J gs x D) (hx : x.Nodup)
    (hlen : gs.length = x.length) : J.invertSquare.1 = .success ↔ Regular gs x D := by
  have hsquare : J.rows = J.cols := h.rows.trans (hlen.trans h.cols.symm)
  constructor
  · intro hsuccess d hd u hu
    obtain ⟨j, hj⟩ := List.mem_iff_getElem?.mp hu
    have hz : ∀ (j : Nat) (u : ν × α), x[j]? = some u → (x[j]?).elim 0 d = d u :=
      fun j u hj => by rw [hj]; rfl
    rw [← hz j u hj]
    refine DenseMatrix.eq_zero_of_solves hsquare hsuccess ((h.solves_iff hz).mpr hd) ?_
    exact h.cols ▸ (List.getElem?_eq_some_iff.mp hj).1
  · refine fun hreg => DenseMatrix.success_of_independent hsquare fun z _ hz j hj => ?_
    have hj : j < x.length := by rwa [h.rows, hlen] at hj
    have hplace : ∀ (k : Nat) (u : ν × α), x[k]? = some u → z k = z (x.idxOf u) :=
      fun k u hu => by rw [idxOf_of_getElem? hx hu]
    rw [hplace j _ (List.getElem?_eq_getElem hj)]
    exact hreg _ ((h.solves_iff hplace).mp hz) _ (List.getElem_mem hj)

/-- **The update of a Newton step is a direction that `Corrects` the functions.** -/
theorem Tabulates.exists_corrects (h : Tabulates J gs x D) (hx : x.Nodup)
    (hlen : gs.length = x.length) (hJ : J.invertSquare.1 = .success) {values : List α}
    (hvalues : List.Forall₂ (fun f y => f (byName x) = .ok y) gs values) :
    ∃ d, Corrects gs x D d ∧ newtonUpdate J.invertSquare.2 values = x.map d := by
  obtain ⟨hrows, hcols, hundoes⟩ := DenseMatrix.undoes_of_invertSquare
    (h.rows.trans (hlen.trans h.cols.symm)) (Prod.ext hJ rfl)
  set R := J.invertSquare.2
  set y : Nat → α := fun l => (values[l]?).getD 0 with hy
  have hplace : ∀ (k : Nat) (u : ν × α), x[k]? = some u →
      -R.dot k y = -R.dot (x.idxOf u) y := fun k u hu => by rw [idxOf_of_getElem? hx hu]
  refine ⟨fun u => -R.dot (x.idxOf u) y, fun f hf => ?_, ?_⟩
  · obtain ⟨i, hi⟩ := List.mem_iff_getElem?.mp hf
    obtain ⟨v, hv, hfv⟩ := exists_getElem?_of_forall₂ hvalues hi
    have hrow : i < J.rows := h.rows ▸ (List.getElem?_eq_some_iff.mp hi).1
    refine ⟨v, hfv, ?_⟩
    calc rise D x (fun u => -R.dot (x.idxOf u) y) f
        = J.dot i (fun k => -R.dot k y) := (h.dot_eq_rise hi hplace).symm
      _ = -J.dot i (fun k => R.dot k y) := by simp [DenseMatrix.dot]
      _ = -v := by rw [hundoes y i hrow]; simp only [hy, hv, Option.getD_some]
  · rw [newtonUpdate_eq (hcols.trans (h.rows.trans hvalues.length_eq))]
    refine List.ext_getElem (by simp [hrows, h.rows, hlen]) fun k hk hk' => ?_
    rw [List.getElem_map, List.getElem_map, List.getElem_range]
    exact hplace k _ (List.getElem?_eq_getElem (by simpa using hk'))

end

end FluxBalance.Newton
