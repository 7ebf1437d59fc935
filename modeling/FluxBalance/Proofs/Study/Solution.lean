import Mathlib.Algebra.Order.Field.Rat
import Mathlib.Tactic.Ring
import FluxBalance.Proofs.Network.Kirchhoff
import FluxBalance.Proofs.Study.Agreement
import FluxBalance.Proofs.Study.Reachable

/-!
# What a solution says

A solution reports a potential for each node and a flux for each element. The main statement is
that the reported fluxes balance, where every element counts at both of its nodes. At an unlocked
node the balance is one of the equations that have been solved. At a driven node it is the flux of
the driving element that makes up the balance. Locked nodes that are not driven keep their
potentials, and across each driving element the potential rises by its gain.

The iteration has seen the equations at small residuals while the network was in other states than
the one that is left in the end; that these are the same equations is the agreement of settled
networks.

## Main definitions and results

* `Network.Reports`, `Solution.inflow`: what a solution reports, and what flows into a node by it;
* `Solved`, `solved_of_solve`: what `solve` returns is balanced within the margin.
-/

namespace FluxBalance

open FluxBalance.Computation Network

variable {α : Type} [Scalar α]

/-! ### Reported fluxes -/

/-- What flows into a node less what flows out of it in one component, by the fluxes that are
reported for the elements. Every element counts at both of its ends. -/
def Solution.inflow (sol : Solution α) (es : List (Element α)) (i c : Nat) : α :=
  Scalar.sum (((es.zip sol.fluxes).filter fun p => decide (p.1.Touches i)).map
    fun p => p.1.signed i (p.2.getD c 0))

/-- The solution reports the potentials and the fluxes of the network. -/
structure Network.Reports (net : Network α) (sol : Solution α) : Prop where
  potentials : sol.potentials = net.nodes.toList.map fun n => n.potential.toList
  fluxes : List.Forall₂ (fun e f => ∃ m, flux e net = .ok m net ∧ f = m.toList)
    net.elements.toList sol.fluxes

namespace Network

private theorem fluxesOf_eq_ok :
    ∀ {es : List (Element α)} {net net' : Network α} {fs : List (List α)},
      fluxesOf es net = .ok fs net' →
      List.Forall₂ (fun e f => ∃ m, flux e net = .ok m net ∧ f = m.toList) es fs
  | [], net, net', fs, h => by
    obtain ⟨rfl, -⟩ := pure_eq_ok.mp h
    exact .nil
  | e :: es, net, net', fs, h => by
    obtain ⟨f, net₁, hf, h⟩ := bind_eq_ok.mp h
    obtain ⟨fs', net₂, hfs, h⟩ := bind_eq_ok.mp h
    obtain ⟨rfl, -⟩ := pure_eq_ok.mp h
    obtain rfl := (leaves_flux e).of_ok hf
    exact .cons ⟨f, hf, rfl⟩ (fluxesOf_eq_ok hfs)

theorem reports_of_readOff {net net' : Network α} {sol : Solution α}
    (h : readOff net = .ok sol net') : net.Reports sol := by
  obtain ⟨fs, net₁, hfs, h⟩ := bind_eq_ok.mp h
  obtain ⟨ps, net₂, hps, h⟩ := bind_eq_ok.mp h
  obtain ⟨hsnapshot, rfl⟩ := look_eq_ok_iff.mp hps
  obtain ⟨rfl, rfl⟩ := pure_eq_ok.mp h
  obtain rfl := (leaves_fluxesOf _).of_ok hfs
  refine ⟨?_, fluxesOf_eq_ok hfs⟩
  rw [snapshot_eq_ok hsnapshot, List.map_map]
  rfl

/-- Where fluxes are reported, the balances of all driven nodes resolve. -/
theorem Reports.resolves {net : Network α} {sol : Solution α} (h : net.Reports sol)
    (hwf : net.WellFormed) : ∀ e ∈ net.drivers, net.Resolves e.driven := by
  intro e he
  obtain ⟨⟨k, hk⟩, hd⟩ := mem_drivers.mp he
  obtain ⟨w, hfits⟩ := hwf.fits hk
  obtain ⟨f, hf⟩ : ∃ f, (e, f) ∈ net.elements.toList.zip sol.fluxes := by
    have hmem : e ∈ ((net.elements.toList.zip sol.fluxes).map Prod.fst) := by
      rw [List.map_fst_zip h.fluxes.length_eq.le]
      exact (List.mem_filter.mp he).1
    obtain ⟨⟨_, f⟩, hf, rfl⟩ := List.mem_map.mp hmem
    exact ⟨f, hf⟩
  obtain ⟨m, hm, -⟩ := List.forall₂_zip h.fluxes hf
  exact (flux_eq_ok hwf hfits hm).2.2 hd

/-- Fluxes that are reported count for the same at a node as the fluxes of the network. -/
private theorem map_signed_zip {net : Network α} (hwf : net.WellFormed) {i w c : Nat}
    (hi : net.width? i = some w) (hc : c < w) {es : List (Element α)} {fs : List (List α)}
    (hes : ∀ e ∈ es, ∃ w, e.Fits net w)
    (hfs : List.Forall₂ (fun e f => ∃ m, flux e net = .ok m net ∧ f = m.toList) es fs) :
    ((es.zip fs).filter fun p => decide (p.1.Touches i)).map
        (fun p => p.1.signed i (p.2.getD c 0)) =
      (es.filter fun e => decide (e.Touches i)).map fun e => e.signed i (net.fluxAt e c) := by
  induction hfs with
  | nil => rfl
  | @cons e f es fs hf _ ih =>
    have ih := ih fun e he => hes e (List.mem_cons_of_mem _ he)
    rw [List.zip_cons_cons, List.filter_cons, List.filter_cons]
    by_cases ht : e.Touches i
    · -- The element has the width of the node, so its flux has an entry for the component.
      obtain ⟨m, hm, rfl⟩ := hf
      obtain ⟨w', hw'⟩ := hes e List.mem_cons_self
      obtain rfl : w = w' := by
        rcases ht with rfl | rfl
        · exact Option.some.inj (hi.symm.trans hw'.input)
        · exact Option.some.inj (hi.symm.trans hw'.output)
      obtain ⟨-, htab, -⟩ := flux_eq_ok hwf hw' hm
      have hentry : m.toList.getD c 0 = net.fluxAt e c := by
        rw [DenseMatrix.toList_of_cols_eq_one htab.cols, htab.rows, ← htab.entry c hc]
        simp [hc]
      simp only [ht, decide_true, if_true, List.map_cons]
      rw [hentry, ih]
    · simp only [ht, decide_false, Bool.false_eq_true, if_false]
      exact ih

/-- The `inflow` at a node sums up the fluxes of the elements that touch it. -/
private theorem Reports.inflow_eq {net : Network α} {sol : Solution α} (h : net.Reports sol)
    (hwf : net.WellFormed) {i w c : Nat} (hi : net.width? i = some w) (hc : c < w) :
    sol.inflow net.elements.toList i c =
      Scalar.sum ((net.elements.toList.filter fun e => decide (e.Touches i)).map
        fun e => e.signed i (net.fluxAt e c)) := by
  rw [Solution.inflow, map_signed_zip hwf hi hc hwf.fits_of_mem h.fluxes]

/-! ### Solutions -/

/-- What a solution with a margin says of the network that is left. -/
structure Solved (margin : α) (net after : Network α) (sol : Solution α) : Prop where
  /-- Nothing but potentials has changed. -/
  frame : after.frame = net.frame
  /-- The solution reports what the network is like. -/
  reports : after.Reports sol
  /-- At unlocked nodes the reported fluxes balance within the margin. -/
  balanced : ∀ {i : Nat} {n : Node α}, after.nodes[i]? = some n → n.isLocked = false →
    ∀ c < n.components,
      Scalar.lt (Scalar.abs (sol.inflow after.elements.toList i c)) margin = true
  /-- Locked nodes that no element drives are as before. -/
  boundary : ∀ {i : Nat} {n : Node α}, net.nodes[i]? = some n → n.isLocked = true →
    (∀ e ∈ net.drivers, e.driven ≠ i) → after.nodes[i]? = some n

/-- What a solution says of the driving elements if arithmetic is exact. -/
structure Driven (after : Network α) (sol : Solution α) : Prop where
  /-- At driven nodes the reported fluxes balance. -/
  balanced : ∀ e ∈ after.drivers, ∀ c < e.gain.rows,
    sol.inflow after.elements.toList e.driven c = 0
  /-- From the input to the output of a driving element the potential rises by its gain. -/
  rises : ∀ e ∈ after.drivers, ∀ c < e.gain.rows,
    after.potentialAt e.output c = after.potentialAt e.input c + e.gain.entry c 0

/-- If an element holds exactly, the potential rises by its gain, whichever end it drives. -/
theorem rises_of_holds [Scalar.Exact α] {net : Network α} {e : Element α}
    (h : e.Holds Scalar.Same net) {c : Nat} (hc : c < e.gain.rows) :
    net.potentialAt e.output c = net.potentialAt e.input c + e.gain.entry c 0 := by
  have hc := Scalar.Exact.same_iff.mp (h c hc)
  unfold Element.driven Element.dominant Element.impose at hc
  by_cases ho : e.drivesOutput = true
  · simpa only [ho, if_true] using hc
  · simp only [ho, Bool.false_eq_true, if_false] at hc
    rw [hc]
    ring

/-- How a successful solution comes about: Newton's method has found a point, the point has been
written into the network and settled there, and the result has been read off. -/
theorem settledAt_of_solve {net after : Network α} (hwf : net.WellFormed) {margin : α} {limit : Int}
    {indexLimit : Nat} {sol : Solution α}
    (h : solve margin limit indexLimit net = .ok sol after) :
    ∃ (x : Unknowns α) (s s' : Network α) (values : List α), Lists x net ∧
      DiffersIn (· ∈ x.map Prod.fst) net s ∧
      Newton.evaluateAll x (x.map fun u => balanceResidual u.1) s = .ok values s' ∧
      Scalar.lt (Scalar.maxAbs values) margin = true ∧ SettledAt x net after ∧
      after.Reports sol := by
  obtain ⟨-, guess, saved, hguess, -, hbody⟩ := solve_eq_ok_iff.mp h
  obtain ⟨x, s', hx, hbody⟩ := bind_eq_ok.mp hbody
  obtain ⟨_, b, hwrite, hbody⟩ := bind_eq_ok.mp hbody
  obtain ⟨_, after', hsettle, hread⟩ := bind_eq_ok.mp hbody
  obtain rfl := leaves_readOff.of_ok hread
  have hover : Newton.Over (· ∈ guess.map Prod.fst) guess :=
    Newton.over_iff_keys.mpr fun _ hk => hk
  have hkeep := residualsKeep (K := (· ∈ guess.map Prod.fst)) hwf guess
  have hs' := (Newton.keeps_solveSystem hkeep hover _ _).of_ok (.refl _ net) hx
  obtain ⟨hkeys, s, values, hs, hvalues, hlt⟩ :=
    Newton.converged_of_solveSystem hkeep hover (.refl _ net) hx
  -- The point has the keys of the guess, so its residuals are those of the guess.
  have hresiduals : (guess.map fun u => balanceResidual (α := α) u.1) =
      x.map fun u => balanceResidual u.1 := by
    have hmap := congrArg (List.map (balanceResidual (α := α))) hkeys
    rw [List.map_map, List.map_map] at hmap
    exact hmap.symm
  rw [← hkeys] at hs hs'
  rw [hresiduals] at hvalues
  refine ⟨x, s, s', values, fun u => ?_, hs, hvalues, hlt,
    settledAt_of_settle hwf hs' hwrite hsettle, reports_of_readOff hread⟩
  rw [hkeys]
  exact mem_keys_of_unknowns hguess

/-- **At an unlocked node the reported fluxes balance within the margin.** The equation of the node
has been evaluated at the point that was found, in a network that differs from the one that is left
in unlocked and driven potentials only. -/
theorem balanced_of_settledAt [Scalar.Lawful α] {net after s s' : Network α}
    (hwf : net.WellFormed) (hord : net.Orderly) {x : Unknowns α} (hx : Lists x net)
    (hs : DiffersIn (· ∈ x.map Prod.fst) net s) {values : List α}
    (hvalues : Newton.evaluateAll x (x.map fun u => balanceResidual u.1) s = .ok values s')
    {margin : α} (hlt : Scalar.lt (Scalar.maxAbs values) margin = true)
    (hafter : SettledAt x net after) {sol : Solution α} (hreports : after.Reports sol)
    (hroot : ∀ i, net.RootedWithin net.drivers.length i) {i : Nat} {n : Node α}
    (hn : after.nodes[i]? = some n) (hunlocked : n.isLocked = false) {c : Nat}
    (hc : c < n.components) :
    Scalar.lt (Scalar.abs (sol.inflow after.elements.toList i c)) margin = true := by
  have hframe := hafter.differs.frame
  have hwf' := hwf.of_frame_eq hframe.symm
  have hwidth : after.width? i = some n.components := by rw [width?, hn]; rfl
  obtain ⟨m, hm, hmframe⟩ := getElem?_of_frame_eq hframe hn
  obtain ⟨hshape, hlock, -⟩ := Node.frame_eq_iff.mp hmframe
  have hrows : n.components = m.components := congrArg Prod.fst hshape
  -- The equation of this unknown has been evaluated at the point, to a value below the margin.
  have hkey : ⟨i, c⟩ ∈ x.map Prod.fst :=
    (hx ⟨i, c⟩).mpr ⟨m, hm, hlock.symm.trans hunlocked, hrows ▸ hc⟩
  obtain ⟨u, hu, huic⟩ := List.mem_map.mp hkey
  have hover : Newton.Over (· ∈ x.map Prod.fst) x := Newton.over_iff_keys.mpr fun _ hk => hk
  obtain ⟨k, hk⟩ := List.mem_iff_getElem?.mp
    (List.mem_map_of_mem (f := fun u => balanceResidual (α := α) u.1) hu)
  obtain ⟨s₀, y, s₁, hs₀, hy, hfin, hplace⟩ :=
    Newton.getElem?_of_evaluateAll hover (residualsKeep hwf x) hs hvalues hk
  obtain ⟨hs₁, rfl, hres⟩ := balance_eq_ok hwf hs₀ hy
  rw [huic] at hplace hres
  have hsmall := Scalar.abs_lt_of_maxAbs_lt (Newton.isFinite_of_evaluateAll hvalues) hlt _
    (List.mem_of_getElem? hplace)
  -- The balance is the same in the network that is left, where it sums up the fluxes.
  have hsame := hs₁.same_balanceAt hwf hroot hx hafter i c
  have hres' : after.Resolves i := by
    have hframe' := hs₁.differs.frame.trans hframe.symm
    rw [Resolves, ← elements_of_frame_eq hframe', ← size_of_frame_eq hframe']
    exact hres
  have hundriven := (hord.of_frame_eq hframe.symm).undriven hn hunlocked
  rw [hreports.inflow_eq hwf' hwidth hc, sum_touches_undriven hwf' hundriven hres',
    ← Scalar.Lawful.lt_same hsame.abs (.refl margin)]
  exact hsmall

/-- **What is solved is balanced.** Whatever a network has gone through, as long as nobody has
entered a node, a solution reports the potentials and the fluxes of the network that it leaves, the
fluxes balance within the margin at every unlocked node, and the boundary conditions are as before;
in exact arithmetic the fluxes balance at every driven node, too, and the potentials rise by the
gains of the driving elements. -/
theorem solved_of_solve [Scalar.Lawful α] {net after : Network α}
    (hnet : Reachable (fun m => ¬m.Enters) net) {margin : α} {limit : Int} {indexLimit : Nat}
    {sol : Solution α} (h : solve margin limit indexLimit net = .ok sol after) :
    Solved margin net after sol ∧ (Scalar.Exact α → Driven after sol) := by
  have hwf := wellFormed_of_reachable hnet
  have hord := orderly_of_reachable hnet
  obtain ⟨x, s, s', values, hx, hs, hvalues, hlt, hafter, hreports⟩ := settledAt_of_solve hwf h
  have hframe := hafter.differs.frame
  have hwf' := hwf.of_frame_eq hframe.symm
  have hord' := hord.of_frame_eq hframe.symm
  have hresolves := hreports.resolves hwf'
  have hroot (i : Nat) : net.RootedWithin net.drivers.length i := by
    rw [← drivers_of_frame_eq hframe]
    exact (rootedWithin_of_resolves hresolves i).of_frame_eq hframe
  refine ⟨⟨hframe, hreports, fun {i n} hn hunlocked c hc => ?_, fun {i n} hn hlocked hi => ?_⟩,
    fun hexact => ⟨fun e he c hc => ?_, fun e he c hc => ?_⟩⟩
  · exact balanced_of_settledAt hwf hord hx hs hvalues hlt hafter hreports hroot hn hunlocked hc
  · rw [hafter.differs.node (fun c hc => ?_) hi, hn]
    obtain ⟨m, hm, hunlocked, -⟩ := (hx _).mp hc
    rw [hn] at hm
    cases hm
    rw [hlocked] at hunlocked
    cases hunlocked
  · obtain ⟨⟨k, hk⟩, hd⟩ := mem_drivers.mp he
    obtain ⟨w, hw⟩ := hwf'.fits hk
    rw [hreports.inflow_eq hwf' hw.driven ((hw.gain_of_drives hd).1 ▸ hc)]
    exact sum_touches_driven hwf' hord' he (hresolves e he) c
  · exact rises_of_holds (hafter.holds hwf hord hroot e he) hc

/-- The `divider` is solved, with exact arithmetic. -/
theorem solved_divider : ∃ sol after,
    solve (mkRat 1 10000) 100 ComponentIndex.usualLimit divider = .ok sol after ∧
      Solved (mkRat 1 10000) divider after sol ∧ Driven after sol := by
  have hok : succeeded (solve (mkRat 1 10000) 100 ComponentIndex.usualLimit divider) = true := by
    decide +kernel
  obtain ⟨sol, after, h⟩ := succeeded_eq_true_iff.mp hok
  obtain ⟨hsolved, hdriven⟩ := solved_of_solve reachable_divider h
  exact ⟨sol, after, h, hsolved, hdriven inferInstance⟩

end Network

end FluxBalance
