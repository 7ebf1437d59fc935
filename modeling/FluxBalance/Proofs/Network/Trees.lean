import Mathlib.Algebra.BigOperators.Group.Finset.Sigma
import FluxBalance.Proofs.Network.Kirchhoff
import FluxBalance.Proofs.Network.Loops

/-!
# Trees of driven nodes

No node is driven twice, so the nodes that can be reached from a node by going from dominant to
driven nodes form a tree, unless a loop can be reached. The balance of the node adds up the flux
that the elements which do not drive carry into the nodes of this tree: what flows between them
through driving elements cancels out.

## Main definitions and results

* `drivenFrom`, `inflowAt`: the nodes driven from a node, and what flows into a node without driving
  elements;
* `balanceWithin_eq_sum_reached`: the balance of a node is the sum of the inflows of its tree.
-/

namespace FluxBalance.Network

open Relation

variable {α : Type} {net : Network α} {i j k : Nat}

/-! ### Driving elements of an orderly network -/

/-- In an `Orderly` network a node is driven by at most one element. -/
private theorem Orderly.eq_of_driven_eq (h : net.Orderly) {e f : Element α} (he : e ∈ net.drivers)
    (hf : f ∈ net.drivers) (hef : e.driven = f.driven) : e = f := by
  obtain ⟨⟨k, hk⟩, hd⟩ := mem_drivers.mp he
  obtain ⟨⟨l, hl⟩, hd'⟩ := mem_drivers.mp hf
  obtain rfl := h.driven_inj hk hl hd hd' hef
  exact Option.some.inj (hk.symm.trans hl)

/-- A node is driven from one node only. -/
theorem Orderly.eq_of_drives (h : net.Orderly) (hik : net.Drives i k) (hjk : net.Drives j k) :
    i = j := by
  obtain ⟨e, he, rfl, rfl⟩ := hik
  obtain ⟨f, hf, rfl, hef⟩ := hjk
  rw [h.eq_of_driven_eq hf he hef]

/-- Of two nodes from which a third one can be reached, one can be reached from the other. -/
theorem Orderly.total (h : net.Orderly) (hik : ReflTransGen net.Drives i k)
    (hjk : ReflTransGen net.Drives j k) :
    ReflTransGen net.Drives i j ∨ ReflTransGen net.Drives j i := by
  have hunique : Relator.RightUnique (Function.swap net.Drives) := fun _ _ _ => h.eq_of_drives
  have htotal := ReflTransGen.total_of_right_unique hunique (reflTransGen_swap.mpr hik)
    (reflTransGen_swap.mpr hjk)
  exact htotal.symm.imp reflTransGen_swap.mp reflTransGen_swap.mp

/-- What is reached from a node of the network is one of its nodes. -/
private theorem lt_size_of_reachable (hwf : net.WellFormed) (hi : i < net.nodes.size)
    (h : ReflTransGen net.Drives i j) : j < net.nodes.size := by
  rcases ReflTransGen.cases_tail h with rfl | ⟨k, -, e, he, -, rfl⟩
  · exact hi
  · exact driven_lt_size hwf he

/-! ### The nodes of a tree -/

open scoped Classical in
/-- The nodes that can be reached from a node by going from dominant to driven nodes. -/
noncomputable def reached (net : Network α) (i : Nat) : Finset Nat :=
  (Finset.range net.nodes.size).filter fun j => ReflTransGen net.Drives i j

open scoped Classical in
theorem mem_reached_iff :
    j ∈ net.reached i ↔ j < net.nodes.size ∧ ReflTransGen net.Drives i j := by
  rw [reached, Finset.mem_filter, Finset.mem_range]

/-- In a `WellFormed` network all that is reached from a node is in `reached`. -/
theorem mem_reached (hwf : net.WellFormed) (hi : i < net.nodes.size) :
    j ∈ net.reached i ↔ ReflTransGen net.Drives i j :=
  mem_reached_iff.trans (and_iff_right_of_imp fun h => lt_size_of_reachable hwf hi h)

/-- The nodes that are driven from a node. -/
def drivenFrom (net : Network α) (i : Nat) : List Nat :=
  (net.drivers.filter fun e => decide (e.dominant = i)).map Element.driven

private theorem mem_drivenFrom : j ∈ net.drivenFrom i ↔ net.Drives i j := by
  simp only [drivenFrom, List.mem_map, List.mem_filter, decide_eq_true_eq, Drives, and_assoc]

/-- In an `Orderly` network `drivenFrom` lists each node once. -/
private theorem nodup_drivenFrom (h : net.Orderly) (i : Nat) : (net.drivenFrom i).Nodup :=
  h.nodup_driven.sublist (List.filter_sublist.map _)

/-- The trees of different nodes that are driven from one node have no node in common. -/
private theorem disjoint_reached (hwf : net.WellFormed) (hord : net.Orderly)
    (hloop : ¬net.LeadsToLoop i) (hj : net.Drives i j) (hk : net.Drives i k) (hjk : j ≠ k) :
    Disjoint (net.reached j) (net.reached k) := by
  have hlt {m : Nat} (hm : net.Drives i m) : m < net.nodes.size := by
    obtain ⟨e, he, -, rfl⟩ := hm
    exact driven_lt_size hwf he
  -- If one of them could be reached from the other, so could their common dominant node.
  have hnot : ∀ {m n : Nat}, net.Drives i m → net.Drives i n → m ≠ n →
      ¬ReflTransGen net.Drives m n := by
    intro m n hm hn hmn hreach
    rcases ReflTransGen.cases_tail hreach with rfl | ⟨p, hmp, hpn⟩
    · exact hmn rfl
    · rw [hord.eq_of_drives hpn hn] at hmp
      exact hloop ⟨i, .refl, TransGen.head' hm hmp⟩
  rw [Finset.disjoint_left]
  intro n hjn hkn
  rw [mem_reached hwf (hlt hj)] at hjn
  rw [mem_reached hwf (hlt hk)] at hkn
  rcases hord.total hjn hkn with h | h
  · exact hnot hj hk hjk h
  · exact hnot hk hj (Ne.symm hjk) h

/-- A node reaches itself and what its driven nodes reach. -/
private theorem reached_eq (hwf : net.WellFormed) (hi : i < net.nodes.size) :
    net.reached i = insert i ((net.drivenFrom i).toFinset.biUnion net.reached) := by
  ext k
  have hlt {m : Nat} (hm : net.Drives i m) : m < net.nodes.size := by
    obtain ⟨e, he, -, rfl⟩ := hm
    exact driven_lt_size hwf he
  rw [mem_reached hwf hi, ReflTransGen.cases_head_iff, Finset.mem_insert, Finset.mem_biUnion,
    eq_comm]
  refine or_congr_right (exists_congr fun j => ?_)
  rw [List.mem_toFinset, mem_drivenFrom]
  exact and_congr_right fun hij => (mem_reached hwf (hlt hij)).symm

/-- A sum over a tree, split at its root. -/
private theorem sum_reached {β : Type} [AddCommMonoid β] (hwf : net.WellFormed) (hord : net.Orderly)
    (hi : i < net.nodes.size) (hloop : ¬net.LeadsToLoop i) (f : Nat → β) :
    ∑ j ∈ net.reached i, f j =
      f i + ((net.drivenFrom i).map fun j => ∑ k ∈ net.reached j, f k).sum := by
  have hnot : i ∉ (net.drivenFrom i).toFinset.biUnion net.reached := by
    rw [Finset.mem_biUnion]
    rintro ⟨j, hj, hji⟩
    rw [List.mem_toFinset, mem_drivenFrom] at hj
    exact hloop ⟨i, .refl, TransGen.head' hj (mem_reached_iff.mp hji).2⟩
  rw [reached_eq hwf hi, Finset.sum_insert hnot, Finset.sum_biUnion,
    List.sum_toFinset _ (nodup_drivenFrom hord i)]
  intro j hj k hk hjk
  rw [Finset.mem_coe, List.mem_toFinset, mem_drivenFrom] at hj hk
  exact disjoint_reached hwf hord hloop hj hk hjk

/-! ### Balances as sums over trees -/

variable [Scalar α]

/-- What the elements that do not drive carry into a node, in one component. -/
def inflowAt (net : Network α) (i c : Nat) : α :=
  Scalar.sum ((net.elements.toList.filter fun e => !e.kind.drives && decide (e.Touches i)).map
    fun e => e.signed i (e.passive net.potentialAt c))

variable [Scalar.Exact α]

/-- At its `dominant` node a driving element counts for the balance of the node that it drives. -/
private theorem signed_dominant {e : Element α} {w : Nat} (h : e.Fits net w) (x : α) :
    e.signed e.dominant (if e.drivesOutput then -x else x) = x := by
  unfold Element.signed Element.dominant
  by_cases ho : e.drivesOutput = true
  · rw [if_pos ho, if_pos ho, if_neg h.ends_ne, neg_neg]
  · rw [if_neg ho, if_neg ho, if_pos rfl]

omit [Scalar α] [Scalar.Exact α] in
/-- Elements that do not drive enter the balances of both of their nodes. -/
private theorem filter_entering_not_drives (hwf : net.WellFormed) (i : Nat) :
    (entering net.elements.toList i).filter (fun e => !e.kind.drives) =
      net.elements.toList.filter fun e => !e.kind.drives && decide (e.Touches i) := by
  rw [entering, List.filter_filter]
  refine List.filter_congr fun e he => ?_
  obtain ⟨w, hfits⟩ := hwf.fits_of_mem e he
  cases hd : e.kind.drives with
  | true => rfl
  | false =>
    have hiff : e.Touches i ↔ i ∈ e.endpoints := by
      rw [touches_iff hfits, hd, or_iff_left fun h => Bool.false_ne_true h.1]
    simp only [Bool.not_false, Bool.true_and, decide_eq_decide.mpr hiff]

omit [Scalar α] [Scalar.Exact α] in
/-- Driving elements enter the balance of the `dominant` node. -/
private theorem filter_entering_drives (net : Network α) (i : Nat) :
    (entering net.elements.toList i).filter (fun e => e.kind.drives) =
      net.drivers.filter fun e => decide (e.dominant = i) := by
  rw [entering, drivers, List.filter_filter, List.filter_filter]
  refine List.filter_congr fun e _ => ?_
  cases hd : e.kind.drives with
  | false => simp
  | true => simp [Element.endpoints, hd, eq_comm]

/-- The balance of a node is what flows in without driving elements, and the balances of the nodes
that are driven from it. -/
private theorem balanceWithin_succ_eq (hwf : net.WellFormed) (d i c : Nat) :
    balanceWithin net.elements.toList net.potentialAt (d + 1) i c = net.inflowAt i c +
      ((net.drivenFrom i).map fun j =>
        balanceWithin net.elements.toList net.potentialAt d j c).sum := by
  let balance := balanceWithin net.elements.toList net.potentialAt d
  let s (e : Element α) : α := e.signed i (fluxOf balance net.potentialAt e c)
  have hinflow : ∀ e ∈ net.elements.toList.filter
      (fun e => !e.kind.drives && decide (e.Touches i)),
      s e = e.signed i (e.passive net.potentialAt c) := by
    intro e he
    have hd : ¬e.kind.drives = true := by
      have h := (List.mem_filter.mp he).2
      simp only [Bool.and_eq_true, Bool.not_eq_true'] at h
      rw [h.1]
      exact Bool.false_ne_true
    simp only [s, fluxOf, if_neg hd]
  have hdriven : ∀ e ∈ net.drivers.filter (fun e => decide (e.dominant = i)),
      s e = balance e.driven c := by
    intro e he
    obtain ⟨he, hi⟩ := List.mem_filter.mp he
    obtain ⟨⟨k, hk⟩, hd⟩ := mem_drivers.mp he
    obtain ⟨w, hfits⟩ := hwf.fits hk
    obtain rfl : e.dominant = i := by simpa using hi
    simp only [s, fluxOf, if_pos hd]
    exact signed_dominant hfits _
  -- The elements that enter the balance do not drive, or they drive from this node.
  have hsplit := (List.filter_append_perm (fun e => e.kind.drives)
    (entering net.elements.toList i)).map s
  rw [balanceWithin, Scalar.Exact.sum_eq_sum, inflowAt, Scalar.Exact.sum_eq_sum, drivenFrom,
    List.map_map, ← hsplit.sum_eq, List.map_append, List.sum_append, filter_entering_drives,
    filter_entering_not_drives hwf, List.map_congr_left hinflow, List.map_congr_left hdriven,
    add_comm]
  rfl

/-- **The balance of a node adds up what flows into its tree** through elements that do not drive.
The induction is on the depth at which the balance resolves. -/
theorem balanceWithin_eq_sum_reached (hwf : net.WellFormed) (hord : net.Orderly) (c : Nat) :
    ∀ {d i : Nat}, i < net.nodes.size → ResolvesWithin net.elements.toList d i →
      balanceWithin net.elements.toList net.potentialAt d i c =
        ∑ j ∈ net.reached i, net.inflowAt j c
  | d + 1, i, hi, h => by
    rw [balanceWithin_succ_eq hwf, sum_reached hwf hord hi (not_leadsToLoop_of_resolvesWithin h)]
    refine congrArg _ (congrArg _ (List.map_congr_left fun j hj => ?_))
    obtain ⟨e, he, rfl, rfl⟩ := mem_drivenFrom.mp hj
    exact balanceWithin_eq_sum_reached hwf hord c (driven_lt_size hwf he)
      (resolvesWithin_of_dominant he h)

/-- Unless it leads to a loop, the balance of a node is the sum of the inflows of all nodes that it
reaches. -/
theorem balanceAt_eq_sum_reached (hwf : net.WellFormed) (hord : net.Orderly)
    (hi : i < net.nodes.size) (hloop : ¬net.LeadsToLoop i) (c : Nat) :
    net.balanceAt i c = ∑ j ∈ net.reached i, net.inflowAt j c :=
  balanceWithin_eq_sum_reached hwf hord c hi ((resolves_iff hwf).mpr hloop)

end FluxBalance.Network
