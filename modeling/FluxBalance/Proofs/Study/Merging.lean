import FluxBalance.Proofs.Study.Assignments
import FluxBalance.Proofs.Study.Loops

/-!
# Driven trees as single nodes

Nothing ever merges a node with the nodes that are driven from it: the `discrepancy` of the node
comes out of a recursion in which the sign of a flux depends on which end of an element is driven
and on which side of the element the node lies. What comes out is nevertheless the balance of the
merged node. The fluxes of driving elements are inside the tree and cancel out; what is left is what
the other elements carry into the tree less what they carry out of it, and an element between two
nodes of the tree counts for nothing.

## Main definitions and results

* `Network.netInflow`: what the elements that do not drive carry into a set of nodes;
* `discrepancy_merged`: the discrepancy of a node is this, for the nodes driven from it;
* `staggered`: an example with chains of driving elements.
-/

namespace FluxBalance

open FluxBalance.Computation Network Relation

variable {α : Type} [Scalar α] [Scalar.Exact α]

/-! ### Fluxes into a set of nodes -/

/-- What a flux from the input to the output of an element carries into a set of nodes. -/
def Element.carried (e : Element α) (s : Finset Nat) (f : α) : α :=
  (if e.output ∈ s then f else 0) - if e.input ∈ s then f else 0

/-- Inflow less outflow of a set of nodes in one component, by given fluxes of the elements that do
not drive. -/
def Network.netInflow (net : Network α) (flow : Element α → DenseMatrix α) (s : Finset Nat)
    (c : Nat) : α :=
  ((net.elements.toList.filter fun e => !e.kind.drives).map fun e =>
    e.carried s ((flow e).entry c 0)).sum

/-- What an element carries into a set of nodes is the sum of what it carries into each. -/
private theorem Element.carried_eq_sum (e : Element α) (s : Finset Nat) (f : α) :
    e.carried s f = ∑ j ∈ s, e.carried {j} f := by
  simp only [carried, Finset.mem_singleton, Finset.sum_sub_distrib, Finset.sum_ite_eq]

/-- An element carries into a node what its flux counts for there. -/
private theorem Element.carried_singleton {e : Element α} (hne : e.input ≠ e.output) (i : Nat)
    (f : α) : e.carried {i} f = if e.Touches i then e.signed i f else 0 := by
  have h := mul_signed_eq hne (fun _ => 1) f i
  simp only [one_mul] at h
  simp only [h, carried, Finset.mem_singleton, eq_comm]

namespace Network

variable {net : Network α}

/-- **What flows into a set of nodes flows into its nodes.** Between two nodes of the set it both
comes and goes. -/
theorem netInflow_eq_sum (net : Network α) (flow : Element α → DenseMatrix α) (s : Finset Nat)
    (c : Nat) : net.netInflow flow s c = ∑ j ∈ s, net.netInflow flow {j} c := by
  unfold netInflow
  induction net.elements.toList.filter fun e => !e.kind.drives with
  | nil => simp
  | cons e es ih =>
    simp only [List.map_cons, List.sum_cons, Finset.sum_add_distrib]
    rw [ih, e.carried_eq_sum s]

/-- The inflow of a node, by fluxes that the elements have at the present potentials. -/
private theorem netInflow_singleton (hwf : net.WellFormed) {flow : Element α → DenseMatrix α}
    (hflow : ∀ e ∈ net.elements.toList, e.kind.drives = false →
      flux e net = .ok (flow e) net)
    {i w c : Nat} (hi : net.width? i = some w) (hc : c < w) :
    net.netInflow flow {i} c = net.inflowAt i c := by
  have hterm : ∀ e ∈ net.elements.toList.filter fun e => !e.kind.drives,
      e.carried {i} ((flow e).entry c 0) =
        if e.Touches i then e.signed i (e.passive net.potentialAt c) else 0 := by
    intro e he
    obtain ⟨he, hd⟩ := List.mem_filter.mp he
    rw [Bool.not_eq_true'] at hd
    obtain ⟨w', hfits⟩ := hwf.fits_of_mem e he
    rw [Element.carried_singleton hfits.ends_ne]
    refine ite_congr rfl (fun ht => ?_) fun _ => rfl
    obtain rfl : w = w' := by
      rcases ht with rfl | rfl
      · exact Option.some.inj (hi.symm.trans hfits.input)
      · exact Option.some.inj (hi.symm.trans hfits.output)
    obtain ⟨-, htab, -⟩ := flux_eq_ok hwf hfits (hflow e he hd)
    rw [htab.entry c hc, fluxAt, fluxOf, hd, if_neg Bool.false_ne_true]
  rw [netInflow, List.map_congr_left hterm, List.sum_map_ite, List.sum_map_zero, add_zero,
    List.filter_filter, inflowAt, Scalar.Exact.sum_eq_sum]
  simp only [Bool.and_comm]

/-! ### Discrepancies of trees -/

/-- Where there is no loop, the `discrepancy` of every node can be evaluated, and it adds up what
flows into the nodes of its tree. -/
theorem exists_discrepancy_eq_sum_inflowAt (hclear : net.Clear) (hord : net.Orderly) {w : Nat}
    (hi : net.width? i = some w) :
    ∃ v, discrepancy i net = .ok v net ∧ v.shape = (w, 1) ∧
      ∀ c < w, v.entry c 0 = ∑ j ∈ net.reached i, net.inflowAt j c := by
  have hwf := hclear.wellFormed
  have hsize := lt_size_of_width? hi
  have hloop : ¬net.LeadsToLoop i := fun h => hclear.acyclic (hasLoop_of_leadsToLoop h)
  obtain ⟨v, hv⟩ := exists_discrepancy hwf hclear.readable hclear.unmarked hsize hloop
  have htab := tabulates_of_discrepancy hwf hi hv
  refine ⟨v, hv, by rw [DenseMatrix.shape, htab.rows, htab.cols], fun c hc => ?_⟩
  rw [htab.entry c hc, balanceAt_eq_sum_reached hwf hord hsize hloop]

/-- The `discrepancy` adds up the net inflows of the nodes of the tree. -/
private theorem exists_discrepancy_eq (hclear : net.Clear) (hord : net.Orderly)
    {flow : Element α → DenseMatrix α}
    (hflow : ∀ e ∈ net.elements.toList, e.kind.drives = false → flux e net = .ok (flow e) net)
    {i w : Nat} (hi : net.width? i = some w) :
    ∃ v, discrepancy i net = .ok v net ∧ v.shape = (w, 1) ∧
      ∀ c < w, v.entry c 0 = ∑ j ∈ net.reached i, net.netInflow flow {j} c := by
  have hwf := hclear.wellFormed
  obtain ⟨v, hv, hshape, hentry⟩ := exists_discrepancy_eq_sum_inflowAt hclear hord hi
  refine ⟨v, hv, hshape, fun c hc => ?_⟩
  rw [hentry c hc]
  refine Finset.sum_congr rfl fun j hj => (netInflow_singleton hwf hflow ?_ hc).symm
  rw [← width?_of_reachable hwf (mem_reached_iff.mp hj).2, hi]

omit [Scalar.Exact α] in
private theorem reached_of_frame_eq {a b : Network α} (h : a.frame = b.frame) (i : Nat) :
    a.reached i = b.reached i := by
  unfold reached
  rw [drives_of_frame_eq h, size_of_frame_eq h]

/-- **A `discrepancy` is the balance of a merged node.** In a `Reachable` network without a loop of
driving elements, at any potentials, every element that does not drive has a `flux`, and the
discrepancy of every node is the sum, over the node and the nodes that can be reached from it by
going from dominant to driven nodes, of what these fluxes carry into the node less what they carry
out of it. So it is the net inflow of all of these nodes together. -/
theorem discrepancy_merged (hnet : Reachable (fun m => ¬m.Enters) net) (hloop : ¬net.HasLoop)
    (V : Nat → Nat → α) :
    ∃ flow : Element α → DenseMatrix α,
      (∀ e ∈ net.elements.toList, e.kind.drives = false →
        flux e (net.withPotentials V) = .ok (flow e) (net.withPotentials V)) ∧
      ∀ {i : Nat} {n : Node α}, net.nodes[i]? = some n → ∃ v,
        discrepancy i (net.withPotentials V) = .ok v (net.withPotentials V) ∧
        v.shape = (n.components, 1) ∧
        ∀ c < n.components,
          v.entry c 0 = ∑ j ∈ net.reached i, net.netInflow flow {j} c ∧
          v.entry c 0 = net.netInflow flow (net.reached i) c := by
  have hord := orderly_of_reachable hnet
  have hclear := clear_of_reachable hnet hord.free hloop
  have hframe := frame_withPotentials hclear.wellFormed V
  have hclear' := hclear.of_frame_eq hframe.symm
  -- Elements that do not drive always have a flux, so the fluxes can be collected in a function.
  let flow (e : Element α) : DenseMatrix α :=
    match flux e (net.withPotentials V) with
    | .ok f _ => f
    | .error _ _ => .zeros 0 0
  have hflow : ∀ e ∈ net.elements.toList, e.kind.drives = false →
      flux e (net.withPotentials V) = .ok (flow e) (net.withPotentials V) := by
    intro e he _
    obtain ⟨f, hf⟩ := exists_flux hclear' he
    simp only [flow, hf]
  refine ⟨flow, hflow, fun {i n} hn => ?_⟩
  have hwidth : (net.withPotentials V).width? i = some n.components := by
    rw [width?_of_frame_eq hframe, width?, hn]
    rfl
  obtain ⟨v, hv, hshape, hentry⟩ :=
    exists_discrepancy_eq hclear' (hord.of_frame_eq hframe.symm) hflow hwidth
  rw [reached_of_frame_eq hframe] at hentry
  exact ⟨v, hv, hshape, fun c hc =>
    ⟨hentry c hc, (hentry c hc).trans (netInflow_eq_sum net flow _ c).symm⟩⟩

/-! ### A forward and a backward drive -/

/-- Four nodes. The first drives the second, which is the output, and this one drives the third,
which is the input. Conductors join the second to the third and the last to the third, and a
constant flux goes from the first to the last. -/
def staggered : Network Rat :=
  [Move.addElement (.kind .potentialDrive) [] none 0 1 (.number 10),
    .addElement (.kind .potentialDrive) [] none 2 1 (.number 3),
    .addElement (.kind .conductive) [] none 1 2 (.number 5),
    .addElement (.kind .conductive) [] none 3 2 (.number 2),
    .addElement (.kind .constantFlux) [] none 0 3 (.number 7)].foldl Move.after
    ⟨Array.replicate 4 (Node.zero 1), #[], []⟩

theorem reachable_staggered : Reachable (fun m => ¬m.Enters) staggered := by
  have hnodes : (Study.new (α := Rat) none).addNodes 4 1 =
      .ok ((0, 4), ⟨none, some ⟨Array.replicate 4 (Node.zero 1), #[], []⟩⟩) := rfl
  have hconfigured : Reachable (fun m => ¬m.Enters) _ :=
    .configured (.addNodes (.new none) hnodes) rfl
  have hregular : Catalogue.Regular ([] : Catalogue Rat) := by simp [Catalogue.Regular]
  refine hconfigured.foldl fun m hm => ?_
  simp only [List.mem_cons, List.not_mem_nil, or_false] at hm
  rcases hm with rfl | rfl | rfl | rfl | rfl <;> exact ⟨⟨trivial, hregular⟩, id⟩

/-- In `staggered` each node drives later ones only. -/
private theorem drives_staggered {i j : Nat} (h : staggered.Drives i j) : i < j := by
  have hdrivers : ∀ e ∈ staggered.drivers, e.dominant < e.driven := by decide +kernel
  obtain ⟨e, he, rfl, rfl⟩ := h
  exact hdrivers e he

theorem not_hasLoop_staggered : ¬staggered.HasLoop := by
  have hlt {i j : Nat} (h : TransGen staggered.Drives i j) : i < j := by
    induction h with
    | single h => exact drives_staggered h
    | tail _ h ih => exact ih.trans (drives_staggered h)
  rintro ⟨i, hi⟩
  exact lt_irrefl i (hlt hi)

/-- The first node stands for its tree, whichever way the drives point. -/
theorem discrepancy_merged_staggered : ∃ flow v,
    discrepancy 0 (staggered.withPotentials fun i _ => i) =
      .ok v (staggered.withPotentials fun i _ => i) ∧
    v.entry 0 0 = staggered.netInflow flow (staggered.reached 0) 0 := by
  obtain ⟨flow, -, hdiscrepancy⟩ :=
    discrepancy_merged reachable_staggered not_hasLoop_staggered fun i _ => i
  obtain ⟨n, hn⟩ : ∃ n, staggered.nodes[0]? = some n := ⟨_, rfl⟩
  obtain ⟨v, hv, -, hentry⟩ := hdiscrepancy hn
  have hwidth : n.components = 1 := by
    have hall : ∀ n ∈ staggered.nodes.toList, n.components = 1 := by decide +kernel
    exact hall n (Array.mem_toList_iff.mpr (Array.mem_of_getElem? hn))
  exact ⟨flow, v, hv, (hentry 0 (by omega)).2⟩

/-- Of the tree, the last conductor feeds the third node and the constant flux leaves the first. -/
example : (match discrepancy 0 (staggered.withPotentials fun i _ => i) with
    | .ok v _ => v.entry 0 0
    | .error _ _ => 0) = 2 - 7 := by
  decide +kernel

end Network

end FluxBalance
