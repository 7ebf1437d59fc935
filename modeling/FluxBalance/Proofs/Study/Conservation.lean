import FluxBalance.Proofs.Study.Merging

/-!
# Conservation of flux

Whatever the potentials are, nothing is lost. An element that does not drive carries out of one node
what it carries into another one, so over all nodes these flows add up to zero. A `discrepancy` adds
them up over a tree of driven nodes. Where there is no loop of driving elements, the trees of the
nodes that no element drives have no node in common and leave none out, so the discrepancies of
these nodes add up to what flows into all nodes together.

## Main definitions and results

* `undriven`: the nodes that no element drives, which are the roots of the trees;
* `sum_undriven`, `sum_inflowAt`: sums over all nodes, tree by tree and element by element;
* `sum_discrepancies_eq_zero`: discrepancies at undriven nodes add up to zero.
-/

namespace FluxBalance.Network

open FluxBalance.Computation Relation

variable {α : Type} {net : Network α} {i j k : Nat}

/-! ### The trees of a forest -/

/-- The nodes that no element drives. -/
def undriven (net : Network α) : Finset Nat :=
  (Finset.range net.nodes.size).filter fun i => ∀ e ∈ net.drivers, e.driven ≠ i

private theorem mem_undriven_iff :
    i ∈ net.undriven ↔ i < net.nodes.size ∧ ∀ e ∈ net.drivers, e.driven ≠ i := by
  rw [undriven, Finset.mem_filter, Finset.mem_range]

/-- No other node leads to a node that no element drives. -/
private theorem eq_of_reachable_undriven (hj : j ∈ net.undriven) (h : ReflTransGen net.Drives i j) :
    i = j := by
  rcases ReflTransGen.cases_tail h with rfl | ⟨k, -, e, he, -, hdriven⟩
  · rfl
  · exact absurd hdriven ((mem_undriven_iff.mp hj).2 e he)

private theorem pairwiseDisjoint_reached (hord : net.Orderly) :
    (net.undriven : Set Nat).PairwiseDisjoint net.reached := by
  intro i hi j hj hij
  rw [Function.onFun, Finset.disjoint_left]
  intro k hik hjk
  rcases hord.total (mem_reached_iff.mp hik).2 (mem_reached_iff.mp hjk).2 with h | h
  · exact hij (eq_of_reachable_undriven hj h)
  · exact hij (eq_of_reachable_undriven hi h).symm

/-- Where there is no loop, every node is in the tree of a node that no element drives. -/
private theorem biUnion_reached (hwf : net.WellFormed) (hloop : ¬net.HasLoop) :
    net.undriven.biUnion net.reached = Finset.range net.nodes.size := by
  ext k
  rw [Finset.mem_biUnion, Finset.mem_range]
  constructor
  · rintro ⟨i, -, hk⟩
    exact (mem_reached_iff.mp hk).1
  · intro hk
    obtain ⟨i, hi, hreach⟩ := exists_root (rootedWithin_of_not_hasLoop hwf hloop k)
    -- Driving elements do not lead from a position without a node to a node.
    have hsize : i < net.nodes.size := by
      rcases ReflTransGen.cases_head hreach with rfl | ⟨j, ⟨e, he, rfl, -⟩, -⟩
      · exact hk
      · obtain ⟨⟨l, hl⟩, -⟩ := mem_drivers.mp he
        obtain ⟨w, hfits⟩ := hwf.fits hl
        exact lt_size_of_width? hfits.dominant
    exact ⟨i, mem_undriven_iff.mpr ⟨hsize, hi⟩, mem_reached_iff.mpr ⟨hk, hreach⟩⟩

/-- **A sum over all nodes, tree by tree.** -/
theorem sum_undriven {β : Type} [AddCommMonoid β] (hwf : net.WellFormed) (hord : net.Orderly)
    (hloop : ¬net.HasLoop) (f : Nat → β) :
    ∑ i ∈ net.undriven, ∑ j ∈ net.reached i, f j = ∑ j ∈ Finset.range net.nodes.size, f j := by
  rw [← biUnion_reached hwf hloop, Finset.sum_biUnion (pairwiseDisjoint_reached hord)]

/-! ### Flows between nodes -/

variable [Scalar α] [Scalar.Exact α]

/-- **What flows into one node flows out of another**: over all nodes it cancels out. -/
theorem sum_inflowAt (hwf : net.WellFormed) (c : Nat) :
    ∑ i ∈ Finset.range net.nodes.size, net.inflowAt i c = 0 := by
  let es := net.elements.toList.filter fun e => !e.kind.drives
  let flow (e : Element α) : α := e.passive net.potentialAt c
  have hends : ∀ e ∈ es, e.input < net.nodes.size ∧ e.output < net.nodes.size ∧
      e.input ≠ e.output := by
    intro e he
    obtain ⟨w, hfits⟩ := hwf.fits_of_mem e (List.mem_filter.mp he).1
    exact ⟨lt_size_of_width? hfits.input, lt_size_of_width? hfits.output, hfits.ends_ne⟩
  have hinflow (i : Nat) : net.inflowAt i c =
      1 * ((es.filter fun e => decide (e.Touches i)).map fun e => e.signed i (flow e)).sum := by
    rw [one_mul, List.filter_filter, inflowAt, Scalar.Exact.sum_eq_sum]
    simp only [flow, Bool.and_comm]
  -- Each flow is counted at both of its ends, with opposite signs.
  have hparts := sum_mul_signed (fun _ => 1) flow hends
  simp only [← hinflow, sub_self, zero_mul, List.sum_map_zero] at hparts
  exact hparts

/-! ### Discrepancies -/

/-- **Flux is conserved.** In a `Reachable` network without a loop of driving elements whose nodes
have all the same width, at any potentials, the nodes that no element drives have discrepancies, and
these add up to zero in each component. -/
theorem sum_discrepancies_eq_zero (hnet : Reachable (fun m => ¬m.Enters) net)
    (hloop : ¬net.HasLoop) {w : Nat} (hwidth : ∀ n ∈ net.nodes.toList, n.components = w)
    (V : Nat → Nat → α) :
    ∃ d : Nat → DenseMatrix α,
      (∀ i ∈ net.undriven,
        discrepancy i (net.withPotentials V) = .ok (d i) (net.withPotentials V) ∧
          (d i).shape = (w, 1)) ∧
      ∀ c < w, ∑ i ∈ net.undriven, (d i).entry c 0 = 0 := by
  have hord := orderly_of_reachable hnet
  have hclear := clear_of_reachable hnet hord.free hloop
  have hframe := frame_withPotentials hclear.wellFormed V
  let net' := net.withPotentials V
  have hclear' : net'.Clear := hclear.of_frame_eq hframe.symm
  have hord' : net'.Orderly := hord.of_frame_eq hframe.symm
  have hundriven : net'.undriven = net.undriven := by
    rw [undriven, undriven, drivers_of_frame_eq hframe, size_of_frame_eq hframe]
  have hdiscrepancy : ∀ i ∈ net.undriven, ∃ v, discrepancy i net' = .ok v net' ∧
      v.shape = (w, 1) ∧ ∀ c < w, v.entry c 0 = ∑ j ∈ net'.reached i, net'.inflowAt j c := by
    intro i hi
    obtain ⟨hsize, -⟩ := mem_undriven_iff.mp hi
    have hn : net.width? i = some w := width?_eq_some.mpr
      ⟨net.nodes[i], Array.getElem?_eq_getElem hsize, hwidth _ (Array.getElem_mem_toList hsize)⟩
    exact exists_discrepancy_eq_sum_inflowAt hclear' hord' ((width?_of_frame_eq hframe i).trans hn)
  -- The discrepancies exist node by node; as a function of the node they have to be chosen.
  have : Nonempty (DenseMatrix α) := ⟨.zeros 0 0⟩
  choose! d hd hshape hentry using hdiscrepancy
  refine ⟨d, fun i hi => ⟨hd i hi, hshape i hi⟩, fun c hc => ?_⟩
  calc ∑ i ∈ net.undriven, (d i).entry c 0
      = ∑ i ∈ net'.undriven, ∑ j ∈ net'.reached i, net'.inflowAt j c := by
        rw [hundriven]
        exact Finset.sum_congr rfl fun i hi => hentry i hi c hc
    _ = ∑ j ∈ Finset.range net'.nodes.size, net'.inflowAt j c :=
        sum_undriven hclear'.wellFormed hord' hclear'.acyclic _
    _ = 0 := sum_inflowAt hclear'.wellFormed c

/-- What the tree of the first node gains at some potentials, the last node loses. -/
theorem sum_discrepancies_staggered : ∃ first last : DenseMatrix Rat,
    discrepancy 0 (staggered.withPotentials fun i _ => i * i) =
      .ok first (staggered.withPotentials fun i _ => i * i) ∧
    discrepancy 3 (staggered.withPotentials fun i _ => i * i) =
      .ok last (staggered.withPotentials fun i _ => i * i) ∧
    first.entry 0 0 + last.entry 0 0 = 0 := by
  have hwidth : ∀ n ∈ staggered.nodes.toList, n.components = 1 := by decide +kernel
  have hundriven : staggered.undriven = {0, 3} := by decide +kernel
  obtain ⟨d, hd, hsum⟩ := sum_discrepancies_eq_zero reachable_staggered not_hasLoop_staggered hwidth
    fun i _ => i * i
  rw [hundriven] at hd hsum
  have hpair : ∑ i ∈ {0, 3}, (d i).entry 0 0 = (d 0).entry 0 0 + (d 3).entry 0 0 :=
    Finset.sum_pair (by decide)
  exact ⟨d 0, d 3, (hd 0 (by simp)).1, (hd 3 (by simp)).1,
    hpair.symm.trans (hsum 0 Nat.one_pos)⟩

end FluxBalance.Network
