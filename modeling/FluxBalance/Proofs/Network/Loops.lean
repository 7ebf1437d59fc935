import FluxBalance.Proofs.Network.Chains
import Mathlib.Logic.Relation

/-!
# Loops of driving elements

A driving element leads from its dominant node to the node that it drives, and so do chains of them.
A node is on a loop if such a chain leads from it back to it. The balance of a node `Resolves`
exactly if no loop can be reached from the node: along a chain without a loop no node occurs twice,
so it is no longer than there are nodes.

## Main definitions and results

* `Drives`: a driving element leads from one node to the other;
* `LeadsToLoop`, `HasLoop`: a loop is reached from a node, and there is one at all;
* `resolves_iff`, `rootedWithin_of_not_hasLoop`: without loops balances resolve and nodes are
  rooted.
-/

namespace FluxBalance.Network

open Relation

variable {α : Type} {net : Network α} {i j : Nat}

/-- A driving element derives the potential of the second node from that of the first. -/
def Drives (net : Network α) (i j : Nat) : Prop :=
  ∃ e ∈ net.drivers, e.dominant = i ∧ e.driven = j

/-- Driving elements, one after another, lead from the node back to it. -/
def OnLoop (net : Network α) (i : Nat) : Prop := TransGen net.Drives i i

/-- A loop can be reached from the node by going from dominant to driven nodes. -/
def LeadsToLoop (net : Network α) (i : Nat) : Prop :=
  ∃ j, ReflTransGen net.Drives i j ∧ net.OnLoop j

/-- The network contains a loop of driving elements. -/
def HasLoop (net : Network α) : Prop := ∃ i, net.OnLoop i

/-- One of the `drivers` leads from its `dominant` node to its driven node. -/
theorem drives_of_mem {e : Element α} (he : e ∈ net.drivers) : net.Drives e.dominant e.driven :=
  ⟨e, he, rfl, rfl⟩

/-- The relation `Drives` is a matter of the `frame`. -/
theorem drives_of_frame_eq [Zero α] {a b : Network α} (h : a.frame = b.frame) :
    a.Drives = b.Drives := by
  unfold Drives
  rw [drivers_of_frame_eq h]

theorem hasLoop_of_frame_eq [Zero α] {a b : Network α} (h : a.frame = b.frame) :
    a.HasLoop ↔ b.HasLoop := by
  unfold HasLoop OnLoop
  rw [drives_of_frame_eq h]

/-- What leads to a node from where a loop is reached leads to the loop. -/
private theorem LeadsToLoop.of_reachable (h : net.LeadsToLoop j)
    (hij : ReflTransGen net.Drives i j) : net.LeadsToLoop i := by
  obtain ⟨k, hjk, hk⟩ := h
  exact ⟨k, hij.trans hjk, hk⟩

/-- The way to a loop starts with a step, be it on the loop itself. -/
private theorem LeadsToLoop.exists_drives (h : net.LeadsToLoop i) :
    ∃ j, net.Drives i j ∧ net.LeadsToLoop j := by
  obtain ⟨k, hik, hk⟩ := h
  rcases ReflTransGen.cases_head_iff.mp hik with rfl | ⟨j, hij, hjk⟩
  · obtain ⟨j, hij, hji⟩ := TransGen.head'_iff.mp hk
    exact ⟨j, hij, i, hji, hk⟩
  · exact ⟨j, hij, k, hjk, hk⟩

/-- A node that is marked on the way to `i` and met again is on a loop. -/
theorem onLoop_of_drives (hji : ReflTransGen net.Drives j i) (hij : net.Drives i j) :
    net.OnLoop j := TransGen.tail' hji hij

/-- A node on a loop is driven from a node on a loop. -/
theorem OnLoop.exists_driver (h : net.OnLoop i) :
    ∃ e ∈ net.drivers, e.driven = i ∧ net.OnLoop e.dominant := by
  obtain ⟨j, hij, hji⟩ := TransGen.tail'_iff.mp h
  obtain ⟨e, he, rfl, hdriven⟩ := hji
  exact ⟨e, he, hdriven, TransGen.head' ⟨e, he, rfl, hdriven⟩ hij⟩

/-- Where there is a loop, it can be reached from a node that is driven. -/
theorem HasLoop.exists_driver (h : net.HasLoop) :
    ∃ e ∈ net.drivers, net.LeadsToLoop e.driven := by
  obtain ⟨i, hi⟩ := h
  obtain ⟨e, he, rfl, -⟩ := hi.exists_driver
  exact ⟨e, he, e.driven, .refl, hi⟩

theorem hasLoop_of_leadsToLoop (h : net.LeadsToLoop i) : net.HasLoop := by
  obtain ⟨j, -, hj⟩ := h
  exact ⟨j, hj⟩

/-- If no driven node is one that is driven from, there is no loop. -/
theorem not_hasLoop_of_forall_ne
    (h : ∀ e ∈ net.drivers, ∀ f ∈ net.drivers, e.driven ≠ f.dominant) : ¬net.HasLoop := by
  rintro ⟨i, hi⟩
  obtain ⟨j, ⟨f, hf, rfl, -⟩, -⟩ := TransGen.head'_iff.mp hi
  obtain ⟨k, -, e, he, -, hdriven⟩ := TransGen.tail'_iff.mp hi
  exact h e he f hf hdriven

/-! ### Balances that resolve -/

/-- A driving element enters the balance of its `dominant` node only. -/
private theorem dominant_of_mem_entering {e : Element α} (he : e ∈ entering net.elements.toList i)
    (hd : e.kind.drives = true) : e ∈ net.drivers ∧ e.dominant = i := by
  obtain ⟨hmem, hi⟩ := List.mem_filter.mp he
  have hi : i ∈ e.endpoints := by simpa using hi
  rw [Element.endpoints, if_pos hd, List.mem_singleton] at hi
  exact ⟨List.mem_filter.mpr ⟨hmem, hd⟩, hi.symm⟩

/-- From a node whose balance resolves no loop can be reached. -/
theorem not_leadsToLoop_of_resolvesWithin :
    ∀ {d i : Nat}, ResolvesWithin net.elements.toList d i → ¬net.LeadsToLoop i
  | 0, _, h => absurd h id
  | d + 1, i, h => by
    intro hloop
    obtain ⟨j, ⟨e, he, rfl, rfl⟩, hj⟩ := hloop.exists_drives
    exact not_leadsToLoop_of_resolvesWithin (resolvesWithin_of_dominant he h) hj

/-- The nodes of a network that are marked on the way to a node: no node is marked twice, and from
each of them driving elements lead to the node. -/
structure WayTo (net : Network α) (marks : List Nat) (i : Nat) : Prop where
  nodup : marks.Nodup
  lt_size : ∀ m ∈ marks, m < net.nodes.size
  leads : ∀ m ∈ marks, ReflTransGen net.Drives m i

namespace WayTo

variable {marks : List Nat}

/-- There are not more `marks` than nodes. -/
theorem length_le (h : net.WayTo marks i) : marks.length ≤ net.nodes.size := by
  have hsub : marks ⊆ List.range net.nodes.size := fun m hm => List.mem_range.mpr (h.lt_size m hm)
  have hle := (List.subperm_of_subset h.nodup hsub).length_le
  rwa [List.length_range] at hle

/-- One more node is marked that has not been marked before. -/
theorem cons (h : net.WayTo marks i) (hij : net.Drives i j) (hj : j < net.nodes.size)
    (hnew : j ∉ marks) : net.WayTo (j :: marks) j where
  nodup := List.nodup_cons.mpr ⟨hnew, h.nodup⟩
  lt_size := List.forall_mem_cons.mpr ⟨hj, h.lt_size⟩
  leads := List.forall_mem_cons.mpr ⟨.refl, fun m hm => (h.leads m hm).tail hij⟩

end WayTo

/-- The driven node of an element is a node of the network. -/
theorem driven_lt_size (hwf : net.WellFormed) {e : Element α} (he : e ∈ net.drivers) :
    e.driven < net.nodes.size := by
  obtain ⟨⟨k, hk⟩, -⟩ := mem_drivers.mp he
  obtain ⟨w, hfits⟩ := hwf.fits hk
  exact lt_size_of_width? hfits.driven

/-- Where no loop can be reached, a depth suffices that is greater than the number of nodes which
are not marked yet. -/
private theorem resolvesWithin_of_not_leadsToLoop (hwf : net.WellFormed) :
    ∀ {d : Nat} {marks : List Nat} {i : Nat}, net.WayTo marks i →
      net.nodes.size < marks.length + d → ¬net.LeadsToLoop i →
      ResolvesWithin net.elements.toList d i
  | 0, marks, i, hway, hd, _ => absurd hway.length_le (by omega)
  | d + 1, marks, i, hway, hd, hloop => by
    intro e he hdrives
    obtain ⟨hdriver, rfl⟩ := dominant_of_mem_entering he hdrives
    have hstep : net.Drives e.dominant e.driven := drives_of_mem hdriver
    have hnew : e.driven ∉ marks := fun hmem =>
      hloop ⟨e.driven, .single hstep, onLoop_of_drives (hway.leads _ hmem) hstep⟩
    refine resolvesWithin_of_not_leadsToLoop hwf
      (hway.cons hstep (driven_lt_size hwf hdriver) hnew) ?_ fun h => ?_
    · rw [List.length_cons]
      omega
    · exact hloop (h.of_reachable (.single hstep))

/-- **The balance of a node `Resolves` exactly if no loop can be reached from it.** -/
theorem resolves_iff (hwf : net.WellFormed) : net.Resolves i ↔ ¬net.LeadsToLoop i := by
  refine ⟨not_leadsToLoop_of_resolvesWithin, fun h => ?_⟩
  have hway : net.WayTo [] i := ⟨List.nodup_nil, nofun, nofun⟩
  refine resolvesWithin_of_not_leadsToLoop hwf hway ?_ h
  rw [List.length_nil]
  omega

/-- **Without a loop every node is rooted** within as many driving elements as there are. -/
theorem rootedWithin_of_not_hasLoop (hwf : net.WellFormed) (h : ¬net.HasLoop) (i : Nat) :
    net.RootedWithin net.drivers.length i := by
  refine rootedWithin_of_resolves (fun e _ => ?_) i
  exact (resolves_iff hwf).mpr fun hloop => h (hasLoop_of_leadsToLoop hloop)

end FluxBalance.Network
