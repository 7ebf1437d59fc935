import FluxBalance.Proofs.Study.Solution
import FluxBalance.Proofs.Study.Totality

/-!
# Loops of driving elements in studies

No node of a `Reachable` network is marked, since every evaluation takes its marks back. So the
fluxes of driving elements can be evaluated exactly where no loop can be reached, provided that
nobody is inside a node. A solution reports the fluxes of all elements, so that a network with a
loop has none; and in a network without a loop nothing else that is done while it is solved meets a
conflict.

## Main definitions and results

* `resolving_of_reachable`: nothing is marked in a `Reachable` network;
* `loops_of_reachable`: where fluxes of driving elements end in a conflict, and what solving makes
  of it;
* `circular`: two nodes that drive each other.
-/

namespace FluxBalance

open FluxBalance.Computation Network Relation

variable {α : Type}

/-! ### Marks of reachable networks -/

/-- Nothing is marked in the network of a study. -/
theorem Study.resolving_of_reachable [Scalar α] {s : Study α} (h : s.Reachable) :
    ∀ {net}, s.network? = some net → net.resolving = [] := by
  induction h with
  | new modelType =>
    intro net hnet
    cases hnet
    rfl
  | addNodes hs hadd ih =>
    intro net hnet
    obtain ⟨net₀, hnet₀, ⟨-, rfl⟩ | ⟨-, hset⟩⟩ := Study.addNodes_eq_ok hadd
    · exact ih hnet
    · rw [hnet] at hset
      cases hset
      have hmarks : net₀.resolving = [] := ih hnet₀
      exact hmarks
  | configureNode hs hconf ih =>
    intro net hnet
    obtain ⟨net₀, i, n, n', hnet₀, hn, hn', hset⟩ := Study.changeNode_eq_ok hconf
    rw [hnet] at hset
    cases hset
    have hmarks : net₀.resolving = [] := ih hnet₀
    exact hmarks
  | groundNode hs hground ih =>
    intro net hnet
    obtain ⟨net₀, i, n, n', hnet₀, hn, hn', hset⟩ := Study.changeNode_eq_ok hground
    rw [hnet] at hset
    cases hset
    have hmarks : net₀.resolving = [] := ih hnet₀
    exact hmarks

namespace Network

variable [Scalar α] {net : Network α}

private theorem resolving_addElement (e : Element α) (net : Network α) :
    (finalState (addElement e net)).resolving = net.resolving := by
  rcases addElement_cases e net with ⟨-, h⟩ | ⟨-, h, -⟩ | ⟨-, net₁, hlock, h⟩
  · rw [h]
    rfl
  · rw [h]
    rfl
  · obtain ⟨n, -, -, rfl⟩ := changeNode_lock_eq_ok hlock
    rw [h]
    cases hsync : synchronise e ((net.register e).setNode e.driven { n with isLocked := true }) with
    | ok changed net' =>
      obtain ⟨_, _, _, -, -, -, -, rfl⟩ := synchronise_eq_ok hsync
      rfl
    | error cause net' =>
      rw [synchronise_eq_error hsync]
      rfl

private theorem resolving_after (hwf : net.WellFormed) {m : Move α} (hm : m.Regular) :
    (m.after net).resolving = net.resolving := by
  have hchange : ∀ {index step}, m.ChangesNode index step →
      (m.after net).resolving = net.resolving := by
    intro index step hstep
    rw [hstep.after_eq]
    refine keeps_changeNode (P := fun net' => net'.resolving = net.resolving)
      (fun net' i n n' h _ _ _ => ?_) net rfl
    exact h
  cases m with
  | addElement spec c modelType input output gain =>
    rw [Move.after]
    rcases after_addElement hm.1 hm.2 modelType input output gain net with h | ⟨e, -, h⟩
    · rw [h]
    · rw [h]
      exact resolving_addElement e net
  | evaluate i x => exact resolving_of_frame_eq (frame_balance hwf i x)
  | solve margin limit indexLimit =>
    exact resolving_of_frame_eq (frame_solve hwf margin limit indexLimit)
  | setPotential index value => exact hchange (.setPotential index value)
  | setComponent index component value => exact hchange (.setComponent index component value)
  | lock index => exact hchange (.lock index)
  | ground index => exact hchange (.ground index)
  | enter guard index => exact hchange (.enter guard index)
  | leave guard index => rfl

/-- **Nothing is marked in a `Reachable` network.** -/
theorem resolving_of_reachable {allowed : Move α → Prop} (h : Reachable allowed net) :
    net.resolving = [] := by
  induction h with
  | configured hs hconf =>
    obtain ⟨net', hlive, hconf⟩ := except_bind_eq_ok.mp hconf
    cases hconf
    exact Study.resolving_of_reachable hs (Study.live_eq_ok_iff.mp hlive)
  | moved hnet hm _ ih => exact (resolving_after (wellFormed_of_reachable hnet) hm).trans ih

/-- A `Reachable` network of free nodes without a loop is `Clear`. -/
theorem clear_of_reachable {allowed : Move α → Prop} (h : Reachable allowed net)
    (hfree : ∀ {i : Nat} {n : Node α}, net.nodes[i]? = some n → n.access = .free)
    (hloop : ¬net.HasLoop) : net.Clear where
  wellFormed := wellFormed_of_reachable h
  free := hfree
  unmarked := resolving_of_reachable h
  acyclic := hloop

/-! ### Solving networks with and without loops -/

/-- A network with a loop has no solution. -/
theorem solve_ne_ok_of_hasLoop (hwf : net.WellFormed) (hloop : net.HasLoop) {margin : α}
    {limit : Int} {indexLimit : Nat} {sol : Solution α} {after : Network α} :
    solve margin limit indexLimit net ≠ .ok sol after := by
  intro h
  obtain ⟨x, -, -, -, -, -, -, -, hafter, hreports⟩ := settledAt_of_solve hwf h
  have hframe := hafter.differs.frame
  have hwf' := hwf.of_frame_eq hframe.symm
  obtain ⟨e, he, hleads⟩ := ((hasLoop_of_frame_eq hframe).mpr hloop).exists_driver
  exact (resolves_iff hwf').mp (hreports.resolves hwf' e he) hleads

omit [Scalar α] in
/-- None of the errors with which solving a clear network fails is a conflict. -/
private theorem SolveError.ne_borrow {cause : Error α} (h : SolveError cause)
    (conflict : BorrowConflict) : cause ≠ .borrow conflict := by
  rintro rfl
  cases h with
  | iteration h => cases h

/-- **Loops are met exactly where there are any.** In a `Reachable` network in which nobody is
inside a node, evaluating the `flux` of a driving element ends by itself, whatever would happen at a
greater depth than there are nodes; it ends in a conflict exactly if a loop can be reached from the
driven node, and with a value otherwise; and the marks are afterwards what they were before. So a
network with a loop is never solved, and solving one without a loop never ends in a conflict. -/
theorem loops_of_reachable {allowed : Move α → Prop} (hnet : Reachable allowed net)
    (hfree : ∀ {i : Nat} {n : Node α}, net.nodes[i]? = some n → n.access = .free) :
    (∀ e ∈ net.drivers,
      (∀ (stop : Nat → NetworkAction α (DenseMatrix α)) (d : Nat), net.nodes.size ≤ d →
        fluxBy (discrepancyFrom stop d) e net = flux e net) ∧
      ((∃ conflict after, flux e net = .error (.borrow conflict) after) ↔
        net.LeadsToLoop e.driven) ∧
      (¬net.LeadsToLoop e.driven → ∃ f after, flux e net = .ok f after) ∧
      (finalState (flux e net)).resolving = net.resolving) ∧
    ∀ (margin : α) (limit : Int) (indexLimit : Nat),
      (net.HasLoop → ∀ sol after, solve margin limit indexLimit net ≠ .ok sol after) ∧
      (¬net.HasLoop → ∀ conflict after,
        solve margin limit indexLimit net ≠ .error (.borrow conflict) after) := by
  have hwf := wellFormed_of_reachable hnet
  have hmarks := resolving_of_reachable hnet
  have hread : net.Readable := fun hn => by
    rw [hfree hn]
    exact nofun
  refine ⟨fun e he => ⟨fun stop d hd => fluxBy_discrepancyFrom hwf hmarks he stop hd, ?_, ?_, ?_⟩,
    fun margin limit indexLimit => ⟨fun hloop sol after => solve_ne_ok_of_hasLoop hwf hloop,
      fun hloop conflict after h => ?_⟩⟩
  · -- A value and a conflict exclude each other, and so do the two cases of the driven node.
    rcases flux_cases hwf hread hmarks he with ⟨hnot, f, hf⟩ | ⟨hleads, j, hj⟩
    · refine iff_of_false ?_ hnot
      rintro ⟨conflict, after, h⟩
      rw [hf] at h
      cases h
    · exact iff_of_true ⟨_, _, hj⟩ hleads
  · intro hnot
    rcases flux_cases hwf hread hmarks he with ⟨-, f, hf⟩ | ⟨hleads, -⟩
    · exact ⟨f, net, hf⟩
    · exact absurd hleads hnot
  · rw [leaves_flux e net]
  · exact (solveError_of_solve (clear_of_reachable hnet hfree hloop) h).ne_borrow conflict rfl

/-- In `divider` the grounded node drives the next one, and that is all. -/
theorem drives_divider {i j : Nat} (h : divider.Drives i j) : i = 0 ∧ j = 1 := by
  have hdrivers : divider.drivers.map (fun e => (e.dominant, e.driven)) = [(0, 1)] := by
    decide +kernel
  obtain ⟨e, he, rfl, rfl⟩ := h
  have hmem := List.mem_map_of_mem (f := fun e => (e.dominant, e.driven)) he
  rw [hdrivers, List.mem_singleton] at hmem
  exact Prod.mk.inj hmem

theorem not_hasLoop_divider : ¬divider.HasLoop :=
  not_hasLoop_of_forall_ne (by decide +kernel)

/-- Two nodes that drive each other. -/
def circular : Network Rat :=
  [Move.addElement (.kind .potentialDrive) [] none 0 1 (.number 1),
    .addElement (.kind .potentialDrive) [] none 1 0 (.number 1)].foldl Move.after
    ⟨#[Node.zero 1, Node.zero 1], #[], []⟩

private theorem reachable_circular : Reachable (fun m => ¬m.Enters) circular := by
  have hnodes : (Study.new (α := Rat) none).addNodes 2 1 =
      .ok ((0, 2), ⟨none, some ⟨#[Node.zero 1, Node.zero 1], #[], []⟩⟩) := rfl
  have hconfigured : Reachable (fun m => ¬m.Enters) ⟨#[Node.zero 1, Node.zero 1], #[], []⟩ :=
    .configured (.addNodes (.new none) hnodes) rfl
  refine hconfigured.foldl fun m hm => ?_
  have hregular : Catalogue.Regular ([] : Catalogue Rat) := by simp [Catalogue.Regular]
  rcases List.mem_cons.mp hm with rfl | hm
  · exact ⟨⟨trivial, hregular⟩, id⟩
  · obtain rfl := List.mem_singleton.mp hm
    exact ⟨⟨trivial, hregular⟩, id⟩

private theorem onLoop_circular : circular.OnLoop 1 := by
  have hdrivers : circular.drivers.map (fun e => (e.dominant, e.driven)) = [(0, 1), (1, 0)] := by
    decide +kernel
  have hdrives : ∀ i j, (i, j) ∈ [(0, 1), (1, 0)] → circular.Drives i j := by
    intro i j hij
    rw [← hdrivers] at hij
    obtain ⟨e, he, hends⟩ := List.mem_map.mp hij
    cases hends
    exact drives_of_mem he
  exact .head (hdrives 1 0 (by simp)) (.single (hdrives 0 1 (by simp)))

/-- Nodes that drive each other are met when the `flux` of an element that drives one of them is
evaluated, and there is no solution. -/
theorem loops_of_circular :
    (∃ e ∈ circular.drivers, ∃ conflict after, flux e circular = .error (.borrow conflict) after) ∧
      ∀ sol after,
        solve (mkRat 1 10000) 100 ComponentIndex.usualLimit circular ≠ .ok sol after := by
  have hord := orderly_of_reachable reachable_circular
  obtain ⟨hflux, hsolve⟩ := loops_of_reachable reachable_circular hord.free
  have hloop : circular.HasLoop := ⟨1, onLoop_circular⟩
  obtain ⟨e, he, hleads⟩ := hloop.exists_driver
  exact ⟨⟨e, he, (hflux e he).2.1.mpr hleads⟩, (hsolve _ _ _).1 hloop⟩

end Network

end FluxBalance
