import FluxBalance.Proofs.Network.Flux
import FluxBalance.Proofs.Network.Settling
import Mathlib.Data.List.Perm.Subperm
import Mathlib.Data.List.Chain
import Mathlib.Order.Lattice.Nat

/-!
# Chains of driving elements

Where the fluxes of all driving elements can be evaluated, there is no loop of them: going from an
element to one that it follows strictly increases the depth at which the balance of the driven node
`Resolves`. So no element occurs twice in a chain, and no chain is longer than there are driving
elements.

## Main definitions and results

* `rootedWithin_of_resolves`: if the balance of every node `Resolves`, then every node is
  `RootedWithin` as many driving elements as there are.
-/

namespace FluxBalance.Network

variable {α : Type} {net : Network α}

/-- A node that is not rooted within `d` is the end of a chain of more than `d` elements. -/
private theorem exists_chain_of_not_rootedWithin :
    ∀ {d i : Nat}, ¬net.RootedWithin d i →
      ∃ (e : Element α) (es : List (Element α)), es.length = d ∧ e.driven = i ∧
        (∀ f ∈ e :: es, f ∈ net.drivers) ∧
        (e :: es).IsChain fun f g => f.dominant = g.driven
  | 0, i, h => by
    simp only [RootedWithin, not_forall] at h
    obtain ⟨e, he, hi⟩ := h
    exact ⟨e, [], rfl, not_not.mp hi, by simpa using he, .singleton e⟩
  | d + 1, i, h => by
    simp only [RootedWithin, not_forall] at h
    obtain ⟨e, he, hi, hnot⟩ := h
    obtain ⟨f, fs, hlen, hf, hall, hchain⟩ := exists_chain_of_not_rootedWithin hnot
    refine ⟨e, f :: fs, by rw [List.length_cons, hlen], hi, ?_, .cons_cons hf.symm hchain⟩
    intro g hg
    rcases List.mem_cons.mp hg with rfl | hg
    · exact he
    · exact hall g hg

/-- If the balance of a node resolves, so does that of each node driven from it, one step
earlier. -/
theorem resolvesWithin_of_dominant {e : Element α} (he : e ∈ net.drivers) {d : Nat}
    (h : ResolvesWithin net.elements.toList (d + 1) e.dominant) :
    ResolvesWithin net.elements.toList d e.driven := by
  obtain ⟨hmem, hd⟩ := List.mem_filter.mp he
  refine h e (List.mem_filter.mpr ⟨hmem, ?_⟩) hd
  simp [Element.endpoints, hd]

/-- The least depth at which the balance of a node resolves. -/
noncomputable def resolutionDepth (net : Network α) (i : Nat) : Nat :=
  sInf { d | ResolvesWithin net.elements.toList d i }

/-- The least depth grows from a driven node to the node that it is driven from. -/
private theorem resolutionDepth_lt {e : Element α} (he : e ∈ net.drivers)
    (h : net.Resolves e.dominant) :
    net.resolutionDepth e.driven < net.resolutionDepth e.dominant := by
  have hne : { d | ResolvesWithin net.elements.toList d e.dominant }.Nonempty :=
    ⟨net.nodes.size + 1, h⟩
  have hmem : ResolvesWithin net.elements.toList (net.resolutionDepth e.dominant) e.dominant :=
    Nat.sInf_mem hne
  cases hd : net.resolutionDepth e.dominant with
  | zero =>
    rw [hd] at hmem
    exact absurd hmem id
  | succ d =>
    rw [hd] at hmem
    exact Nat.lt_succ_of_le (Nat.sInf_le (resolvesWithin_of_dominant he hmem))

/-- **Without a loop every node is rooted** within as many driving elements as there are. -/
theorem rootedWithin_of_resolves
    (h : ∀ e ∈ net.drivers, net.Resolves e.driven) (i : Nat) :
    net.RootedWithin net.drivers.length i := by
  by_contra hnot
  obtain ⟨e, es, hlen, -, hall, hchain⟩ := exists_chain_of_not_rootedWithin hnot
  have hgrows : ∀ f ∈ net.drivers, ∀ g ∈ net.drivers, f.dominant = g.driven →
      net.resolutionDepth f.driven < net.resolutionDepth g.driven := by
    intro f hf g hg hfg
    rw [← hfg]
    exact resolutionDepth_lt hf (hfg ▸ h g hg)
  have hpair : (e :: es).Pairwise fun f g =>
      net.resolutionDepth f.driven < net.resolutionDepth g.driven := by
    have hlt := hchain.imp_of_mem_imp fun f g hf hg => hgrows f (hall f hf) g (hall g hg)
    exact List.pairwise_map.mp
      ((List.isChain_map fun f : Element α => net.resolutionDepth f.driven).mpr hlt).pairwise
  have hnodup : (e :: es).Nodup := hpair.imp fun hlt heq => by simp [heq] at hlt
  -- So the chain has no element twice, although it is longer than there are elements.
  have hsub := (List.subperm_of_subset hnodup hall).length_le
  rw [List.length_cons, hlen] at hsub
  omega

end FluxBalance.Network
