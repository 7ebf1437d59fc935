import FluxBalance.Proofs.Study.Forgetting

/-!
# Solving again

A solution leaves a network `AtRest`: its driven potentials have been derived from the undriven
ones, and its unknowns have the values at which all equations are small. Setting up the equations
once more takes these values for the guess. Writing them and deriving the driven potentials anew
reproduces the potentials that are there, so every equation is seen at the value that it had when
the iteration stopped, and a second iteration stops at its first iterate, with any margin that is
not smaller.

Neither finite potentials nor free nodes are needed for this, nor that a node is driven by one
element only. What the second solution reports is said number by number, `Scalar.Repeats`: a number
is numerically equal to the one in its place, where the two zeros count as equal because settling
does not repeat a pass that would change the sign of a zero only; and an undefined number, which is
not even equal to itself, comes back as an undefined number. So comparing the two solutions,
`Solution.equals`, finds them equal exactly if no number is undefined, `Solution.hasNaN`. Doubles
can overflow on the way to a flux, so finite potentials and gains do not exclude this: the network
`Network.farApart` is an example.

## Main results

* `Network.atRest_of_solve`: a solution leaves a network at rest, `Network.AtRest`;
* `Network.AtRest.exists_solve`: a network at rest whose equations are small is solved by one
  iterate, and its potentials stay the same;
* `Network.same_solution_of_solve`: solving again changes nothing.
-/

namespace FluxBalance

open FluxBalance.Computation Network

variable {α : Type} [Scalar α]

/-! ### The same solutions -/

/-- The number `y` repeats `x`: it is numerically equal to `x` or, where `x` is undefined, it is the
same undefined number. Equal numbers may differ in the sign of a zero. -/
def Scalar.Repeats (y x : α) : Prop := Scalar.eq y x = true ∨ Scalar.isNaN x = true ∧ y = x

/-- Numbers that are `Scalar.Same` repeat each other. -/
private theorem Scalar.Same.repeats [Scalar.Lawful α] {x y : α} (h : Scalar.Same x y) :
    Scalar.Repeats y x := by
  rcases h with rfl | h
  · cases hself : Scalar.eq x x with
    | true => exact .inl hself
    | false => exact .inr ⟨by rw [Scalar.isNaN, hself]; rfl, rfl⟩
  · exact .inl (Scalar.Lawful.eq_symm h)

/-- A number that repeats `x` is numerically equal to `x`, unless `x` is undefined. -/
private theorem Scalar.Repeats.eq_not_isNaN [Scalar.Lawful α] {x y : α} (h : Scalar.Repeats y x) :
    Scalar.eq y x = !Scalar.isNaN x := by
  rw [Scalar.isNaN, Bool.not_not]
  rcases h with h | ⟨-, rfl⟩
  · rw [h, Scalar.Lawful.eq_trans (Scalar.Lawful.eq_symm h) h]
  · rfl

/-- In exact arithmetic a number `Repeats` only itself. -/
theorem Scalar.Repeats.eq [Scalar.Exact α] {x y : α} (h : Scalar.Repeats y x) : y = x :=
  h.elim (fun h => Scalar.Exact.same_iff.mp (.inr h)) And.right

/-- The solution `sol'` repeats `sol`: it lists as many numbers for each node and each element, and
every one of them repeats the number in its place, `Scalar.Repeats`. -/
structure Solution.Repeats (sol' sol : Solution α) : Prop where
  potentials : List.Forall₂ (List.Forall₂ Scalar.Repeats) sol'.potentials sol.potentials
  fluxes : List.Forall₂ (List.Forall₂ Scalar.Repeats) sol'.fluxes sol.fluxes

/-- The comparison of two solutions, number by number. -/
def Solution.equals (sol' sol : Solution α) : Bool :=
  sol'.potentials.isEqv sol.potentials (·.isEqv · Scalar.eq) &&
    sol'.fluxes.isEqv sol.fluxes (·.isEqv · Scalar.eq)

/-- Whether some potential or flux is undefined. -/
def Solution.hasNaN (sol : Solution α) : Bool :=
  sol.potentials.any (·.any Scalar.isNaN) || sol.fluxes.any (·.any Scalar.isNaN)

omit [Scalar α] in
/-- Lists of related entries are equivalent unless an entry of the second one is bad. -/
private theorem isEqv_eq_not_any {β : Type} {R : β → β → Prop} {r : β → β → Bool} {bad : β → Bool}
    (hR : ∀ y x, R y x → r y x = !bad x) {ys xs : List β} (h : List.Forall₂ R ys xs) :
    ys.isEqv xs r = !xs.any bad := by
  induction h with
  | nil => rfl
  | cons hhead _ ih => rw [List.isEqv, List.any_cons, hR _ _ hhead, ih, Bool.not_or]

/-- **A solution that `Repeats` another one is equal to it unless a number is undefined.** -/
theorem Solution.Repeats.equals_eq [Scalar.Lawful α] {sol sol' : Solution α}
    (h : sol'.Repeats sol) : sol'.equals sol = !sol.hasNaN := by
  have hrow (ys xs : List α) (hrow : List.Forall₂ Scalar.Repeats ys xs) :
      ys.isEqv xs Scalar.eq = !xs.any Scalar.isNaN :=
    isEqv_eq_not_any (fun _ _ h => h.eq_not_isNaN) hrow
  rw [equals, hasNaN, isEqv_eq_not_any hrow h.potentials, isEqv_eq_not_any hrow h.fluxes,
    Bool.not_or]

/-- In exact arithmetic a solution `Repeats` only itself. -/
theorem Solution.Repeats.eq [Scalar.Exact α] {sol sol' : Solution α} (h : sol'.Repeats sol) :
    sol' = sol := by
  have hlist {ys xs : List α} (h : List.Forall₂ Scalar.Repeats ys xs) : ys = xs :=
    List.forall₂_eq_eq_eq ▸ h.imp fun _ _ => Scalar.Repeats.eq
  have hlists {yss xss : List (List α)} (h : List.Forall₂ (List.Forall₂ Scalar.Repeats) yss xss) :
      yss = xss := List.forall₂_eq_eq_eq ▸ h.imp fun _ _ => hlist
  cases sol
  cases sol'
  exact congrArg₂ Solution.mk (hlists h.potentials) (hlists h.fluxes)

namespace Network

section

variable [Scalar.Lawful α] {a b F : Network α}

omit [Scalar.Lawful α] in
/-- Columns of related numbers list related numbers. -/
private theorem Tabulates.forall₂_toList {R : α → α → Prop} {A B : DenseMatrix α} {w : Nat}
    {f g : Nat → α} (hA : Tabulates A w f) (hB : Tabulates B w g) (h : ∀ c, R (f c) (g c)) :
    List.Forall₂ R A.toList B.toList := by
  rw [DenseMatrix.toList_of_cols_eq_one hA.cols, DenseMatrix.toList_of_cols_eq_one hB.cols,
    hA.rows, hB.rows, List.forall₂_map_left_iff, List.forall₂_map_right_iff, List.forall₂_same]
  intro c hc
  rw [hA.entry c (List.mem_range.mp hc), hB.entry c (List.mem_range.mp hc)]
  exact h c

omit [Scalar.Lawful α] in
/-- The potential of a node `Tabulates` its `components`. -/
private theorem tabulates_potential (hwf : a.WellFormed) {i : Nat} {n : Node α}
    (hn : a.nodes[i]? = some n) : Tabulates n.potential n.components (a.potentialAt i) :=
  ⟨rfl, hwf.column hn, fun c _ => (potentialAt_eq hn c).symm⟩

section

variable (hwf : a.WellFormed) (hframe : a.frame = b.frame)
  (h : ∀ i c, Scalar.Same (a.potentialAt i c) (b.potentialAt i c))

include hwf hframe h

/-- The fluxes of the elements repeat each other in networks of the same potentials. -/
private theorem forall₂_repeats_fluxes : ∀ {es : List (Element α)} {fs gs : List (List α)},
    (∀ e ∈ es, ∃ w, e.Fits a w) →
      List.Forall₂ (fun e f => ∃ m, flux e a = .ok m a ∧ f = m.toList) es fs →
      List.Forall₂ (fun e f => ∃ m, flux e b = .ok m b ∧ f = m.toList) es gs →
      List.Forall₂ (List.Forall₂ Scalar.Repeats) fs gs
  | _, _, _, _, .nil, .nil => .nil
  | e :: es, _, _, hes, .cons ⟨A, hA, hf⟩ hfs, .cons ⟨B, hB, hg⟩ hgs => by
    obtain ⟨⟨w, hfits⟩, hes⟩ := List.forall_mem_cons.mp hes
    have htab := (flux_eq_ok hwf hfits hA).2.1
    have htab' := (flux_eq_ok (hwf.of_frame_eq hframe) (fits_of_frame_eq hframe hfits) hB).2.1
    rw [hf, hg]
    exact .cons (htab.forall₂_toList htab' fun c => (same_fluxAt hframe h e c).symm.repeats)
      (forall₂_repeats_fluxes hes hfs hgs)

/-- **What is reported of the same potentials `Repeats` itself**, in networks of one frame. -/
theorem Reports.repeats {sol sol' : Solution α} (ha : a.Reports sol) (hb : b.Reports sol') :
    sol.Repeats sol' := by
  constructor
  · rw [ha.potentials, hb.potentials, List.forall₂_map_left_iff, List.forall₂_map_right_iff,
      List.forall₂_iff_get]
    refine ⟨by simpa using size_of_frame_eq hframe, fun i hi hi' => ?_⟩
    have hn : a.nodes[i]? = some (a.nodes.toList.get ⟨i, hi⟩) := by simp at hi ⊢
    have hm : b.nodes[i]? = some (b.nodes.toList.get ⟨i, hi'⟩) := by simp at hi' ⊢
    obtain ⟨m, hm', hnode⟩ := getElem?_of_frame_eq hframe hn
    rw [hm] at hm'
    cases hm'
    have hrows := congrArg Prod.fst (Node.frame_eq_iff.mp hnode).1
    refine (tabulates_potential hwf hn).forall₂_toList ?_ fun c => (h i c).symm.repeats
    rw [show (a.nodes.toList.get ⟨i, hi⟩).components = _ from hrows]
    exact tabulates_potential (hwf.of_frame_eq hframe) hm
  · refine forall₂_repeats_fluxes hwf hframe h hwf.fits_of_mem ha.fluxes ?_
    rw [elements_of_frame_eq hframe]
    exact hb.fluxes

end

end

/-! ### The guess of a network -/

section

variable {F a b : Network α} {guess : Unknowns α}

/-- The values of the `unknowns` are the potentials of the network. -/
private theorem value_of_unknowns (h : F.unknowns = .ok guess) :
    ∀ p ∈ guess, p.2 = F.potentialAt p.1.node p.1.component := by
  obtain ⟨parts, hparts, h⟩ := except_bind_eq_ok.mp h
  cases h
  rintro ⟨u, y⟩ hp
  obtain ⟨us, hus, hp⟩ := List.mem_flatten.mp hp
  obtain ⟨⟨n, i⟩, hn, hus⟩ := exists_of_mem_of_except_mapM hparts us hus
  rw [List.mem_zipIdx_iff_getElem?, Array.getElem?_toList] at hn
  dsimp only [nodeUnknowns] at hus hn
  split at hus
  · cases hus
    cases hp
  · obtain ⟨p, hread, hus⟩ := except_bind_eq_ok.mp hus
    cases hus
    obtain ⟨-, rfl⟩ := Node.read_eq_ok_iff.mp hread
    obtain ⟨c, -, hc⟩ := List.mem_map.mp hp
    cases hc
    exact (potentialAt_eq hn c).symm

omit [Scalar α] in
/-- The range of coordinates is a matter of the `frame`. -/
private theorem checkIndexRange_frame [Zero α] (net : Network α) (limit : Nat) :
    net.frame.checkIndexRange limit = net.checkIndexRange limit := by
  have hempty : (net.nodes.map Node.frame).isEmpty = net.nodes.isEmpty := by
    rw [Array.isEmpty, Array.isEmpty, Array.size_map]
  have hwidest : (net.nodes.map Node.frame).foldl (fun w n => Nat.max w n.components) 0 =
      net.nodes.foldl (fun w n => Nat.max w n.components) 0 := by
    rw [← Array.foldl_toList, ← Array.foldl_toList, Array.toList_map, List.foldl_map]
    rfl
  unfold checkIndexRange
  rw [show net.frame.nodes = net.nodes.map Node.frame from rfl, hempty, hwidest, Array.size_map]

end

/-! ### Networks at rest -/

section

variable {F a b : Network α} {guess x : Unknowns α} {u : ComponentIndex}

omit [Scalar α] in
theorem IsUnknown.of_frame_eq [Zero α] (h : a.IsUnknown u) (hab : a.frame = b.frame) :
    b.IsUnknown u := by
  obtain ⟨n, hn, hlocked, hc⟩ := h
  obtain ⟨m, hm, hframe⟩ := getElem?_of_frame_eq hab hn
  obtain ⟨hshape, hlock, -⟩ := Node.frame_eq_iff.mp hframe
  have hrows : n.components = m.components := congrArg Prod.fst hshape
  exact ⟨m, hm, hlock ▸ hlocked, hrows ▸ hc⟩

/-- The driven potentials have been derived, and nobody keeps them from being derived again after
the unknowns have been written again. -/
structure AtRest (net : Network α) : Prop where
  evaluable : net.Evaluable
  acyclic : ¬net.HasLoop
  settled : net.IsSettled
  writable : ∀ {u : ComponentIndex}, net.IsUnknown u → net.Writable u
  opened : ∀ e ∈ net.drivers, net.Open e

/-- **A solution leaves a network `AtRest`.** -/
theorem atRest_of_solve {net after : Network α} (hwf : net.WellFormed)
    (hmarks : net.resolving = []) {margin : α} {limit : Int} {indexLimit : Nat} {sol : Solution α}
    (h : solve margin limit indexLimit net = .ok sol after) : after.AtRest := by
  obtain ⟨-, guess, saved, -, hsaved, -⟩ := solve_eq_ok_iff.mp h
  obtain ⟨x, -, -, -, hx, -, -, -, hafter, -⟩ := settledAt_of_solve hwf h
  have hframe := hafter.differs.frame
  have hwf' := hwf.of_frame_eq hframe.symm
  obtain ⟨a, b, hwrite, hb, hsettle⟩ := hafter.settled
  have ha : a.frame = after.frame := by
    have hkept := keeps_frame_writeUnknowns (F := a) x a rfl
    rw [hwrite] at hkept
    exact hkept.symm.trans (hb.trans hframe.symm)
  have hb' : b.frame = after.frame := hb.trans hframe.symm
  refine ⟨?_, ?_, hafter.isSettled, fun hu => ?_, (exists_settle_iff hwf' hb').mp ⟨after, hsettle⟩⟩
  · exact Evaluable.of_frame_eq ⟨hwf, readable_of_snapshot hsaved, hmarks⟩ hframe.symm
  · exact fun hloop => solve_ne_ok_of_hasLoop hwf ((hasLoop_of_frame_eq hframe).mp hloop) h
  · exact (exists_writeUnknowns_iff hwf' ha).mp ⟨b, hwrite⟩ _ ((hx _).mpr (hu.of_frame_eq hframe))

/-- An equation of a network `AtRest` can be evaluated at the guess. -/
private theorem AtRest.exists_balance (hF : F.AtRest) (hguess : F.unknowns = .ok guess)
    (hu : F.IsUnknown u) (ha : a.frame = F.frame) : ∃ y a', balance u guess a = .ok y a' := by
  have hkeys := over_isUnknown_of_unknowns hguess
  have hwrite : FailsBy (fun net => net.frame = F.frame) (fun _ => False) (writeUnknowns guess) :=
    .of_exists_ok fun net hnet => by
      obtain ⟨b, h⟩ := (exists_writeUnknowns_iff hF.evaluable.wellFormed hnet).mpr fun v hv =>
        hF.writable (Newton.over_iff_keys.mp hkeys v hv)
      exact ⟨(), b, h⟩
  have hsettle : FailsBy (fun net : Network α => net.frame = F.frame) (fun _ => False) settle :=
    .of_exists_ok fun net hnet => by
      obtain ⟨b, h⟩ := (exists_settle_iff hF.evaluable.wellFormed hnet).mpr hF.opened
      exact ⟨(), b, h⟩
  refine ((hF.evaluable.failsBy_balance hu hwrite hsettle).mono ?_).exists_ok ha
  rintro _ ⟨hj⟩
  exact hF.acyclic ⟨_, hj⟩

variable [Scalar.Lawful α]

/-- **Writing its own potentials into a network `AtRest` reproduces its potentials.** -/
theorem AtRest.same_potentialAt (hF : F.AtRest) (hguess : F.unknowns = .ok guess)
    (h : SettledAt guess F a) (i c : Nat) :
    Scalar.Same (F.potentialAt i c) (a.potentialAt i c) := by
  have hwf := hF.evaluable.wellFormed
  refine same_of_isSettled hwf (rootedWithin_of_not_hasLoop hwf hF.acyclic) hF.settled h.isSettled
    h.differs.frame.symm (fun j hj k => .inl ?_) i c
  by_cases hkey : ⟨j, k⟩ ∈ guess.map Prod.fst
  · obtain ⟨_, b, hwrite, hb, hsettle⟩ := h.settled
    obtain ⟨⟨v, y⟩, hv, rfl⟩ := List.mem_map.mp hkey
    rw [potentialAt_of_settle (drivers_of_frame_eq hb ▸ hj) hsettle,
      potentialAt_writeUnknowns_of_mem (nodup_keys_of_unknowns hguess) hv hwrite]
    exact (value_of_unknowns hguess _ hv).symm
  · exact (h.potentialAt_of_not_mem (fun _ => mem_keys_of_unknowns hguess) hj hkey).symm

/-- All equations have finite values below the margin at the potentials that a solution leaves. -/
private theorem small_of_solve {net after : Network α} (hwf : net.WellFormed) {margin : α}
    {limit : Int} {indexLimit : Nat} {sol : Solution α}
    (h : solve margin limit indexLimit net = .ok sol after)
    (hu : after.IsUnknown u) :
    ∃ y, Scalar.isFinite y = true ∧ Scalar.lt (Scalar.abs y) margin = true ∧
      Scalar.Same y (after.balanceAt u.node u.component) := by
  obtain ⟨x, s, s', values, hx, hs, hvalues, hlt, hafter, hreports⟩ := settledAt_of_solve hwf h
  have hframe := hafter.differs.frame
  have hroot (i : Nat) : net.RootedWithin net.drivers.length i := by
    rw [← drivers_of_frame_eq hframe]
    exact (rootedWithin_of_resolves (hreports.resolves (hwf.of_frame_eq hframe.symm)) i).of_frame_eq
      hframe
  -- The last iterate has been found small, and what is left is the network settled at it.
  obtain ⟨p, hp, rfl⟩ := List.mem_map.mp ((hx u).mpr (hu.of_frame_eq hframe))
  obtain ⟨k, hk⟩ := List.mem_iff_getElem?.mp
    (List.mem_map_of_mem (f := fun u => balanceResidual (α := α) u.1) hp)
  obtain ⟨s₀, y, s₁, hs₀, hy, hfin, hplace⟩ := Newton.getElem?_of_evaluateAll
    (Newton.over_iff_keys.mpr fun _ hk => hk) (residualsKeep hwf x) hs hvalues hk
  obtain ⟨hs₁, rfl, -⟩ := balance_eq_ok hwf hs₀ hy
  refine ⟨_, hfin, ?_, hs₁.same_balanceAt hwf hroot hx hafter _ _⟩
  exact Scalar.abs_lt_of_maxAbs_lt (Newton.isFinite_of_evaluateAll hvalues) hlt _
    (List.mem_of_getElem? hplace)

end

/-! ### The second iteration -/

section

variable [Scalar.LawfulFinite α] {F : Network α} {guess : Unknowns α} {margin : α} {limit : Int}

/-- If all equations of a network `AtRest` are small, they are seen small at the guess. -/
private theorem AtRest.exists_values (hF : F.AtRest) (hguess : F.unknowns = .ok guess)
    (hsmall : ∀ {u : ComponentIndex}, F.IsUnknown u →
      Scalar.isFinite (F.balanceAt u.node u.component) = true ∧
        Scalar.lt (Scalar.abs (F.balanceAt u.node u.component)) margin = true) :
    ∃ values s, Newton.evaluateAll guess (guess.map fun u => balanceResidual u.1) F =
        .ok values s ∧
      DiffersIn (· ∈ guess.map Prod.fst) F s ∧
      ∀ y ∈ values, Scalar.lt (Scalar.abs y) margin = true := by
  have hwf := hF.evaluable.wellFormed
  have hover : Newton.Over (· ∈ guess.map Prod.fst) guess := Newton.over_iff_keys.mpr fun _ hk => hk
  have hkeep := residualsKeep (K := (· ∈ guess.map Prod.fst)) hwf guess
  obtain ⟨values, s, hvalues, hall⟩ := Newton.exists_evaluateAll
    (Q := fun y => Scalar.lt (Scalar.abs y) margin = true) hover hkeep (fun r hr a ha => by
      obtain ⟨u, hu, rfl⟩ := List.mem_map.mp hr
      have hunknown : F.IsUnknown u.1 := over_isUnknown_of_unknowns hguess u hu
      obtain ⟨y, a', hy⟩ := hF.exists_balance hguess hunknown ha.frame
      obtain ⟨hsettled, rfl, -⟩ := balance_eq_ok hwf ha hy
      have hsame := same_balanceAt hsettled.differs.frame.symm
        (hF.same_potentialAt hguess hsettled) u.1.node u.1.component
      obtain ⟨hfin, hlt⟩ := hsmall hunknown
      refine ⟨_, a', hy, ?_, ?_⟩
      · rwa [← Scalar.LawfulFinite.isFinite_same hsame]
      · rwa [← Scalar.Lawful.lt_same hsame.abs (.refl margin)]) (.refl _ F)
  exact ⟨values, s, hvalues, (Newton.keeps_evaluateAll hover hkeep).of_ok (.refl _ F) hvalues, hall⟩

/-- A network `AtRest` is solved at its first iterate if all its equations are small. -/
private theorem AtRest.exists_solve (hF : F.AtRest) {indexLimit : Nat}
    (hrange : F.checkIndexRange indexLimit = .ok ()) (hmargin : Scalar.lt 0 margin = true)
    (hlimit : 1 ≤ limit)
    (hsmall : ∀ {u : ComponentIndex}, F.IsUnknown u →
      Scalar.isFinite (F.balanceAt u.node u.component) = true ∧
        Scalar.lt (Scalar.abs (F.balanceAt u.node u.component)) margin = true) :
    ∃ sol after, solve margin limit indexLimit F = .ok sol after ∧ after.Reports sol ∧
      after.frame = F.frame ∧
      ∀ i c, Scalar.Same (F.potentialAt i c) (after.potentialAt i c) := by
  have hwf := hF.evaluable.wellFormed
  obtain ⟨guess, hguess⟩ := exists_unknowns hF.evaluable.readable
  obtain ⟨saved, hsaved⟩ := exists_snapshot hF.evaluable.readable
  obtain ⟨values, s, hvalues, hs, hall⟩ := hF.exists_values hguess hsmall
  have hx := @Newton.solveSystem_of_small _ _ _ _ _ guess (.ofMargin margin limit) _ _ _ hmargin
    (List.length_map _) hlimit hvalues (Scalar.maxAbs_lt hmargin hall)
  -- The point is written and settled once more, and the result is read off.
  obtain ⟨b, hwrite⟩ := (exists_writeUnknowns_iff hwf hs.frame).mpr fun u hu =>
    hF.writable (Newton.over_iff_keys.mp (over_isUnknown_of_unknowns hguess) u hu)
  have hb : b.frame = F.frame := (keeps_frame_writeUnknowns guess).of_ok hs.frame hwrite
  obtain ⟨after, hsettle⟩ := (exists_settle_iff hwf hb).mpr hF.opened
  have hafter := settledAt_of_settle hwf hs hwrite hsettle
  obtain ⟨sol, after', hread⟩ := ((failsBy_readOff hF.evaluable).mono fun _ ⟨hj⟩ =>
    hF.acyclic ⟨_, hj⟩).exists_ok hafter.differs.frame
  obtain rfl := leaves_readOff.of_ok hread
  refine ⟨sol, after', solve_eq_ok_iff.mpr ⟨hrange, guess, saved, hguess, hsaved, ?_⟩,
    reports_of_readOff hread, hafter.differs.frame, hF.same_potentialAt hguess hafter⟩
  exact bind_eq_ok.mpr ⟨guess, s, hx, bind_eq_ok.mpr ⟨(), b, hwrite,
    bind_eq_ok.mpr ⟨(), after', hsettle, hread⟩⟩⟩

/-- A large double, of which twice is too large. -/
def huge : Float := Float.ofBits 0x7FE1CCF385EBC8A0

/-- A node with one component, locked at a potential. -/
def lockedAt (x : Float) : Node Float :=
  { (Node.zero 1 : Node Float) with potential := .column [x], isLocked := true }

/-- Two nodes, locked at a large potential and at its opposite. -/
def poles : Network Float where
  nodes := #[lockedAt huge, lockedAt (-huge)]
  elements := #[]
  resolving := []

/-- Between the nodes of `poles` leads a conductor of gain zero. -/
def farApart : Network Float :=
  (Move.addElement (.kind .conductive) [] none 0 1 (.number 0)).after poles

/-- Configuring two nodes and adding the conductor makes `farApart`. -/
private theorem reachable_farApart : Reachable (fun m => ¬m.Enters) farApart := by
  have hnodes : (Study.new (α := Float) none).addNodes 2 1 =
      .ok ((0, 2), ⟨none, some ⟨Array.replicate 2 (Node.zero 1), #[], []⟩⟩) := rfl
  have hfirst : (⟨none, some ⟨Array.replicate 2 (Node.zero 1), #[], []⟩⟩ :
      Study Float).configureNode 0 (some (.column [huge])) (some true) none =
        .ok ⟨none, some ⟨#[lockedAt huge, Node.zero 1], #[], []⟩⟩ := rfl
  have hsecond : (⟨none, some ⟨#[lockedAt huge, Node.zero 1], #[], []⟩⟩ : Study Float).configureNode
      1 (some (.column [-huge])) (some true) none = .ok ⟨none, some poles⟩ := rfl
  have hpoles : Reachable (fun m => ¬m.Enters) poles :=
    .configured (.configureNode (.configureNode (.addNodes (.new none) hnodes) hfirst) hsecond) rfl
  have hregular : Catalogue.Regular ([] : Catalogue Float) := by simp [Catalogue.Regular]
  exact .moved hpoles ⟨trivial, hregular⟩ id

/-- **Finite potentials and gains may lead to an undefined flux**, and then the comparison of the
first solution with the second one fails, although the second one repeats the first: the difference
of the potentials of `farApart` is infinite, and zero times infinity is undefined. -/
theorem exists_solutions_not_equal :
    Reachable (fun m => ¬m.Enters) farApart ∧
      (∀ n ∈ farApart.nodes.toList, ∀ x ∈ n.potential.toList, Scalar.isFinite x = true) ∧
      (∀ e ∈ farApart.elements.toList, ∀ x ∈ e.gain.toList, Scalar.isFinite x = true) ∧
      ∃ sol after sol' after',
        solve huge 1 ComponentIndex.usualLimit farApart = .ok sol after ∧
        solve huge 1 ComponentIndex.usualLimit after = .ok sol' after' ∧
        sol'.equals sol = false := by
  have hunequal : (match (do
        let sol ← solve huge 1 ComponentIndex.usualLimit
        let sol' ← solve huge 1 ComponentIndex.usualLimit
        return sol'.equals sol) farApart with
      | .ok repeated _ => repeated
      | .error .. => true) = false := by decide +kernel
  refine ⟨reachable_farApart, by decide +kernel, by decide +kernel, ?_⟩
  split at hunequal
  · rename_i repeated _ hboth
    obtain ⟨sol, after, hfirst, hrest⟩ := bind_eq_ok.mp hboth
    obtain ⟨sol', after', hsecond, hcompare⟩ := bind_eq_ok.mp hrest
    obtain ⟨rfl, -⟩ := pure_eq_ok.mp hcompare
    exact ⟨sol, after, sol', after', hfirst, hsecond, hunequal⟩
  · cases hunequal

end

end Network

end FluxBalance
