import FluxBalance.Proofs.Network.Trees

/-!
# Orientations of driving elements

Which of its nodes a driving element drives depends on what is locked when the element is added, so
the same elements may be oriented differently. Networks that have the same elements up to order and
orientation, and the same `Boundary`, have the same trees of driven nodes: only their roots differ.
So either none of them has a loop or all have, and if none has, then the balances of unlocked nodes
vanish in one of them exactly if they do in the others.

## Main definitions and results

* `Reordered`: the same elements up to order and orientation, and the same boundary;
* `not_hasLoop`, `balanced`: neither loops nor balances of unlocked nodes depend on the orientation.
-/

namespace FluxBalance

open Relation

variable {α : Type}

/-- The element without regard to which node it drives. -/
def Element.unoriented (e : Element α) : Element α := { e with drivesOutput := false }

/-- The element joins two of the nodes. -/
def Element.joins (S : Finset Nat) (e : Element α) : Bool :=
  decide (e.input ∈ S) && decide (e.output ∈ S)

private theorem Element.joins_iff {S : Finset Nat} {e : Element α} :
    e.joins S = true ↔ e.dominant ∈ S ∧ e.driven ∈ S := by
  unfold Element.joins Element.dominant Element.driven
  by_cases ho : e.drivesOutput = true
  · simp only [ho, if_true, Bool.and_eq_true, decide_eq_true_eq]
  · simp only [ho, Bool.false_eq_true, if_false, Bool.and_eq_true, decide_eq_true_eq]
    exact and_comm

namespace Network

variable {net a b : Network α} {i j k : Nat}

/-! ### Links -/

/-- A driving element joins the nodes, whichever of them it drives. -/
def Linked (net : Network α) (i j : Nat) : Prop :=
  ∃ e ∈ net.drivers, e.input = i ∧ e.output = j ∨ e.input = j ∧ e.output = i

theorem Linked.symm (h : net.Linked i j) : net.Linked j i := by
  obtain ⟨e, he, hends⟩ := h
  exact ⟨e, he, hends.symm⟩

/-- Links can be followed back. -/
private theorem linked_reverse (h : ReflTransGen net.Linked i j) : ReflTransGen net.Linked j i := by
  induction h with
  | refl => exact .refl
  | tail _ hjk ih => exact .head hjk.symm ih

/-- Nodes are `Linked` if one of them drives the other. -/
private theorem linked_iff : net.Linked i j ↔ net.Drives i j ∨ net.Drives j i := by
  have hends (e : Element α) : (e.input = i ∧ e.output = j ∨ e.input = j ∧ e.output = i) ↔
      (e.dominant = i ∧ e.driven = j ∨ e.dominant = j ∧ e.driven = i) := by
    unfold Element.dominant Element.driven
    by_cases ho : e.drivesOutput = true
    · simp only [ho, if_true]
    · simp only [ho, Bool.false_eq_true, if_false]
      tauto
  simp only [Linked, Drives, hends]
  constructor
  · rintro ⟨e, he, h | h⟩
    · exact .inl ⟨e, he, h⟩
    · exact .inr ⟨e, he, h⟩
  · rintro (⟨e, he, h⟩ | ⟨e, he, h⟩)
    · exact ⟨e, he, .inl h⟩
    · exact ⟨e, he, .inr h⟩

/-- What is `Linked` to a node that no element drives can be reached from it. -/
private theorem reachable_of_linked (hord : net.Orderly) (hi : ∀ e ∈ net.drivers, e.driven ≠ i)
    (h : ReflTransGen net.Linked i j) : ReflTransGen net.Drives i j := by
  induction h with
  | refl => exact .refl
  | @tail j k _ hjk ih =>
    rcases linked_iff.mp hjk with hjk | hkj
    · exact ih.tail hjk
    · -- The way to `j` ends with the element that drives it.
      rcases ReflTransGen.cases_tail ih with rfl | ⟨m, him, hmj⟩
      · obtain ⟨e, he, -, hdriven⟩ := hkj
        exact absurd hdriven (hi e he)
      · rw [hord.eq_of_drives hkj hmj]
        exact him

private theorem linked_of_reachable (h : ReflTransGen net.Drives i j) :
    ReflTransGen net.Linked i j :=
  h.lift id fun _ _ hij => linked_iff.mpr (.inl hij)

/-- Every node is reached from one that no element drives. -/
theorem exists_root :
    ∀ {d i : Nat}, net.RootedWithin d i →
      ∃ r, (∀ e ∈ net.drivers, e.driven ≠ r) ∧ ReflTransGen net.Drives r i
  | 0, i, h => ⟨i, h, .refl⟩
  | d + 1, i, h => by
    by_cases hdriven : ∀ e ∈ net.drivers, e.driven ≠ i
    · exact ⟨i, hdriven, .refl⟩
    · simp only [not_forall, not_not] at hdriven
      obtain ⟨e, he, rfl⟩ := hdriven
      obtain ⟨r, hr, hreach⟩ := exists_root (h e he rfl)
      exact ⟨r, hr, hreach.tail (drives_of_mem he)⟩

/-- Along a chain of driving elements the widths are the same. -/
theorem width?_of_reachable (hwf : net.WellFormed) (h : ReflTransGen net.Drives i j) :
    net.width? i = net.width? j := by
  induction h with
  | refl => rfl
  | tail _ hjk ih =>
    obtain ⟨e, he, rfl, rfl⟩ := hjk
    obtain ⟨⟨k, hk⟩, -⟩ := mem_drivers.mp he
    obtain ⟨w, hfits⟩ := hwf.fits hk
    rw [ih, hfits.dominant, hfits.driven]

/-! ### Nodes on loops -/

open scoped Classical in
/-- The nodes that are on loops. -/
noncomputable def loopNodes (net : Network α) : Finset Nat :=
  (Finset.range net.nodes.size).filter net.OnLoop

open scoped Classical in
private theorem mem_loopNodes (hwf : net.WellFormed) : i ∈ net.loopNodes ↔ net.OnLoop i := by
  rw [loopNodes, Finset.mem_filter, Finset.mem_range, and_iff_right_iff_imp]
  intro hi
  obtain ⟨e, he, rfl, -⟩ := hi.exists_driver
  exact driven_lt_size hwf he

/-- Each node on a loop is driven by an element between such nodes, so there are no more of these
nodes than of these elements. -/
private theorem card_loopNodes_le (hwf : net.WellFormed) :
    net.loopNodes.card ≤ (net.drivers.filter (Element.joins net.loopNodes)).length := by
  have hcover : net.loopNodes.toList ⊆
      (net.drivers.filter (Element.joins net.loopNodes)).map Element.driven := by
    intro j hj
    have hj := Finset.mem_toList.mp hj
    obtain ⟨e, he, rfl, hdominant⟩ := ((mem_loopNodes hwf).mp hj).exists_driver
    exact List.mem_map_of_mem (List.mem_filter.mpr
      ⟨he, Element.joins_iff.mpr ⟨(mem_loopNodes hwf).mpr hdominant, hj⟩⟩)
  have hle := (List.subperm_of_subset net.loopNodes.nodup_toList hcover).length_le
  rwa [List.length_map, Finset.length_toList] at hle

/-- If each of some nodes is driven from one of them, none of them can be followed back to a node
that no element drives. -/
private theorem not_rootedWithin {S : Finset Nat}
    (h : ∀ i ∈ S, ∃ e ∈ net.drivers, e.driven = i ∧ e.dominant ∈ S) :
    ∀ {d i : Nat}, i ∈ S → ¬net.RootedWithin d i
  | 0, i, hi, hroot => by
    obtain ⟨e, he, hdriven, -⟩ := h i hi
    exact hroot e he hdriven
  | d + 1, i, hi, hroot => by
    obtain ⟨e, he, hdriven, hdominant⟩ := h i hi
    exact not_rootedWithin h hdominant (hroot e he hdriven)

/-! ### Networks that differ in orientation -/

/-- The networks have the same elements up to order and orientation, and the same boundary. -/
structure Reordered (a b : Network α) : Prop where
  width : ∀ i, a.width? i = b.width? i
  elements : (a.elements.toList.map Element.unoriented).Perm
    (b.elements.toList.map Element.unoriented)
  boundary : ∀ i, a.Boundary i ↔ b.Boundary i

namespace Reordered

theorem symm (h : a.Reordered b) : b.Reordered a where
  width i := (h.width i).symm
  elements := h.elements.symm
  boundary i := (h.boundary i).symm

/-- What does not depend on order and orientation is found in both. -/
theorem perm_filter (h : a.Reordered b) {β : Type} (p : Element α → Bool) (f : Element α → β)
    (hp : ∀ e : Element α, p e.unoriented = p e) (hf : ∀ e : Element α, f e.unoriented = f e) :
    ((a.elements.toList.filter p).map f).Perm ((b.elements.toList.filter p).map f) := by
  have key (es : List (Element α)) :
      ((es.map Element.unoriented).filter p).map f = (es.filter p).map f := by
    rw [List.filter_map, List.map_map]
    exact (List.map_congr_left fun e _ => hf e).trans
      (congrArg (List.map f) (List.filter_congr fun e _ => hp e))
  rw [← key a.elements.toList, ← key b.elements.toList]
  exact (h.elements.filter p).map f

private theorem linked (h : a.Reordered b) : a.Linked = b.Linked := by
  have hmem {a b : Network α} (h : a.Reordered b) {i j : Nat} (hij : a.Linked i j) :
      b.Linked i j := by
    obtain ⟨e, he, hends⟩ := hij
    have hperm := h.perm_filter (fun e => e.kind.drives) (fun e => (e.input, e.output))
      (fun _ => rfl) fun _ => rfl
    obtain ⟨f, hf, heq⟩ := List.mem_map.mp (hperm.mem_iff.mp (List.mem_map_of_mem he))
    obtain ⟨hin, hout⟩ := Prod.mk.inj heq
    exact ⟨f, hf, by rwa [hin, hout]⟩
  funext i j
  exact propext ⟨hmem h, hmem h.symm⟩

theorem size (h : a.Reordered b) : a.nodes.size = b.nodes.size := by
  have hle {a b : Network α} (h : a.Reordered b) : a.nodes.size ≤ b.nodes.size := by
    by_contra hlt
    have hlt : b.nodes.size < a.nodes.size := by omega
    have hwidth : a.width? b.nodes.size = some (a.nodes[b.nodes.size]).components := by
      rw [width?, Array.getElem?_eq_getElem hlt]
      rfl
    rw [h.width] at hwidth
    exact absurd (lt_size_of_width? hwidth) (Nat.lt_irrefl _)
  exact Nat.le_antisymm (hle h) (hle h.symm)

/-! ### Loops -/

/-- **Loops do not depend on the orientation.** The nodes on loops are driven by as many elements
between them as there are such nodes. Oriented differently, these elements drive as many nodes,
which are the same ones; so none of these nodes can be followed back to one that is not driven. -/
theorem not_hasLoop (h : a.Reordered b) (hwf : a.WellFormed) (hwf' : b.WellFormed)
    (hord : a.Orderly) (hloop : ¬a.HasLoop) : ¬b.HasLoop := by
  rintro ⟨i, hi⟩
  have hlength : (a.drivers.filter (Element.joins b.loopNodes)).length =
      (b.drivers.filter (Element.joins b.loopNodes)).length := by
    have hperm := h.perm_filter (fun e => e.joins b.loopNodes && e.kind.drives) Element.input
      (fun _ => rfl) fun _ => rfl
    simpa only [drivers, List.filter_filter, List.length_map] using hperm.length_eq
  -- In `a` these elements drive different nodes among them, hence all of them.
  have hperm : ((a.drivers.filter (Element.joins b.loopNodes)).map Element.driven).Perm
      b.loopNodes.toList := by
    refine (List.subperm_of_subset (hord.nodup_driven.sublist (List.filter_sublist.map _))
      fun j hj => ?_).perm_of_length_le ?_
    · obtain ⟨e, he, rfl⟩ := List.mem_map.mp hj
      exact Finset.mem_toList.mpr (Element.joins_iff.mp (List.mem_filter.mp he).2).2
    · rw [List.length_map, Finset.length_toList, hlength]
      exact card_loopNodes_le hwf'
  have hdriven : ∀ j ∈ b.loopNodes, ∃ e ∈ a.drivers, e.driven = j ∧ e.dominant ∈ b.loopNodes := by
    intro j hj
    obtain ⟨e, he, rfl⟩ := List.mem_map.mp (hperm.mem_iff.mpr (Finset.mem_toList.mpr hj))
    obtain ⟨he, hjoins⟩ := List.mem_filter.mp he
    exact ⟨e, he, rfl, (Element.joins_iff.mp hjoins).1⟩
  exact not_rootedWithin hdriven ((mem_loopNodes hwf').mpr hi)
    (rootedWithin_of_not_hasLoop hwf hloop i)

/-! ### Balances -/

/-- Two roots that are `Linked` reach the same nodes, each in its own network. -/
private theorem reached_eq_of_root (h : a.Reordered b) (hwf : a.WellFormed) (hwf' : b.WellFormed)
    (hord : a.Orderly) (hord' : b.Orderly) {r i : Nat} (hr : ∀ e ∈ a.drivers, e.driven ≠ r)
    (hi : ∀ e ∈ b.drivers, e.driven ≠ i) (hrs : r < a.nodes.size) (his : i < b.nodes.size)
    (hri : ReflTransGen a.Linked r i) : a.reached r = b.reached i := by
  ext j
  rw [mem_reached hwf hrs, mem_reached hwf' his]
  constructor
  · intro hj
    refine reachable_of_linked hord' hi (h.linked ▸ ?_)
    exact (linked_reverse hri).trans (linked_of_reachable hj)
  · intro hj
    refine reachable_of_linked hord hr (hri.trans ?_)
    rw [h.linked]
    exact linked_of_reachable hj

variable [Scalar α]

theorem of_frame_eq {a' b' : Network α} (h : a.Reordered b) (ha : a.frame = a'.frame)
    (hb : b.frame = b'.frame) : a'.Reordered b' where
  width i := by rw [← width?_of_frame_eq ha, ← width?_of_frame_eq hb, h.width]
  elements := by
    rw [← elements_of_frame_eq ha, ← elements_of_frame_eq hb]
    exact h.elements
  boundary i :=
    ⟨fun hi => ((h.boundary i).mp (hi.of_frame_eq ha.symm)).of_frame_eq hb,
      fun hi => ((h.boundary i).mpr (hi.of_frame_eq hb.symm)).of_frame_eq ha⟩

/-- Reordering keeps what flows into a node at given potentials. -/
private theorem inflowAt_eq (h : a.Reordered b) (hV : ∀ i c, a.potentialAt i c = b.potentialAt i c)
    [Scalar.Exact α] (i c : Nat) : a.inflowAt i c = b.inflowAt i c := by
  have hpotential : a.potentialAt = b.potentialAt := funext fun i => funext (hV i)
  have hperm := h.perm_filter (fun e => !e.kind.drives && decide (e.Touches i))
    (fun e => e.signed i (e.passive a.potentialAt c)) (fun _ => rfl) fun _ => rfl
  rw [inflowAt, inflowAt, Scalar.Exact.sum_eq_sum, Scalar.Exact.sum_eq_sum, ← hpotential]
  exact hperm.sum_eq

/-- **Balances of unlocked nodes do not depend on the orientation**: at the same potentials they
vanish in the one network if they do in the other. -/
theorem balanced [Scalar.Exact α] (h : a.Reordered b) (hwf : a.WellFormed) (hwf' : b.WellFormed)
    (hord : a.Orderly) (hord' : b.Orderly) (hloop : ¬a.HasLoop)
    (hV : ∀ i c, a.potentialAt i c = b.potentialAt i c)
    (ha : ∀ {i : Nat} {n : Node α}, a.nodes[i]? = some n → n.isLocked = false →
      ∀ c < n.components, a.balanceAt i c = 0) {i : Nat} {n : Node α}
    (hn : b.nodes[i]? = some n) (hunlocked : n.isLocked = false) {c : Nat} (hc : c < n.components) :
    b.balanceAt i c = 0 := by
  have his : i < b.nodes.size := (Array.getElem?_eq_some_iff.mp hn).1
  have hi := hord'.undriven hn hunlocked
  have hloop' := h.not_hasLoop hwf hwf' hord hloop
  -- In `a` the node is in the tree of another root, which is not locked either.
  obtain ⟨r, hr, hri⟩ := exists_root (rootedWithin_of_not_hasLoop hwf hloop i)
  have hwidth : a.width? r = some n.components := by
    rw [width?_of_reachable hwf hri, h.width, width?, hn]
    rfl
  have hlinked := linked_of_reachable hri
  obtain ⟨m, hm, hcomponents⟩ := width?_eq_some.mp hwidth
  have hrs : r < a.nodes.size := lt_size_of_width? hwidth
  have hmunlocked : m.isLocked = false := by
    by_contra hlocked
    obtain ⟨m', hm', hlocked', hr'⟩ :=
      (h.boundary r).mp ⟨m, hm, by simpa using hlocked, hr⟩
    have hir : ReflTransGen b.Drives i r :=
      reachable_of_linked hord' hi (h.linked ▸ linked_reverse hlinked)
    rcases ReflTransGen.cases_tail hir with rfl | ⟨k, -, e, he, -, hdriven⟩
    · rw [hn] at hm'
      cases hm'
      rw [hunlocked] at hlocked'
      cases hlocked'
    · exact hr' e he hdriven
  have hzero := ha hm hmunlocked c (hc.trans_eq hcomponents.symm)
  rw [balanceAt_eq_sum_reached hwf hord hrs fun hleads => hloop (hasLoop_of_leadsToLoop hleads)]
    at hzero
  rw [balanceAt_eq_sum_reached hwf' hord' his fun hleads => hloop' (hasLoop_of_leadsToLoop hleads),
    ← h.reached_eq_of_root hwf hwf' hord hord' hr hi hrs his hlinked, ← hzero]
  exact Finset.sum_congr rfl fun j _ => (h.inflowAt_eq hV j c).symm

end Reordered

end Network

end FluxBalance
