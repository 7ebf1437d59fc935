import FluxBalance.Proofs.Study.Ordering

/-!
# What nodes retain when elements are added

Adding an element registers it at its nodes and, if it drives, locks the node that it drives and
gives it the imposed potential. So a node `Retains` its metadata in any case, and its potential and
its lock unless an element drives it. This is transitive because drives are never taken away.

## Main definitions and results

* `Retains`, `retains_addElement`: what nodes retain when an element is joined.
-/

namespace FluxBalance

open FluxBalance.Computation

variable {α : Type}

namespace Network

/-- Nodes retain their metadata, and those that no element drives retain their potential and their
lock. -/
structure Retains (net net' : Network α) : Prop where
  size : net'.nodes.size = net.nodes.size
  drivers : ∀ e ∈ net.drivers, e ∈ net'.drivers
  node : ∀ {i : Nat} {n : Node α}, net.nodes[i]? = some n →
    ∃ n', net'.nodes[i]? = some n' ∧ n'.metadata = n.metadata ∧
      ((∀ e ∈ net'.drivers, e.driven ≠ i) →
        n'.potential = n.potential ∧ n'.isLocked = n.isLocked)

theorem Retains.refl (net : Network α) : net.Retains net :=
  ⟨rfl, fun _ he => he, fun hn => ⟨_, hn, rfl, fun _ => ⟨rfl, rfl⟩⟩⟩

theorem Retains.trans {net₀ net₁ net₂ : Network α} (h : net₀.Retains net₁)
    (h' : net₁.Retains net₂) : net₀.Retains net₂ where
  size := h'.size.trans h.size
  drivers e he := h'.drivers e (h.drivers e he)
  node {i n} hn := by
    obtain ⟨n₁, hn₁, hmeta, hsame⟩ := h.node hn
    obtain ⟨n₂, hn₂, hmeta', hsame'⟩ := h'.node hn₁
    refine ⟨n₂, hn₂, hmeta'.trans hmeta, fun hi => ?_⟩
    obtain ⟨hp, hl⟩ := hsame fun e he => hi e (h'.drivers e he)
    obtain ⟨hp', hl'⟩ := hsame' hi
    exact ⟨hp'.trans hp, hl'.trans hl⟩

variable {net net' : Network α} {e : Element α}

private theorem retains_register (hne : e.input ≠ e.output) : net.Retains (net.register e) where
  size := by simp only [register, Element.endpoints]; split <;> simp
  drivers f hf := by
    have hdrivers : (net.register e).drivers =
        net.drivers ++ [e].filter fun e => e.kind.drives := by
      simp [Network.drivers, register]
    rw [hdrivers]
    exact List.mem_append_left _ hf
  node {i n} hn := by
    refine ⟨_, by rw [getElem?_register hne, hn, Option.map_some], ?_⟩
    split <;> exact ⟨rfl, fun _ => ⟨rfl, rfl⟩⟩

/-- A change of a driven node that leaves its metadata alone. -/
private theorem retains_setNode {n n' : Node α} (hn : net.nodes[e.driven]? = some n)
    (he : e ∈ net.drivers) (hmeta : n'.metadata = n.metadata) :
    net.Retains (net.setNode e.driven n') where
  size := size_nodes_setNode net e.driven n'
  drivers _ hf := hf
  node {j m} hm := by
    rw [getElem?_nodes_setNode (Array.getElem?_eq_some_iff.mp hn).1]
    split
    · rename_i hj
      subst hj
      obtain rfl : n = m := by simpa [hn] using hm
      exact ⟨n', rfl, hmeta, fun hj => absurd rfl (hj e he)⟩
    · exact ⟨m, hm, rfl, fun _ => ⟨rfl, rfl⟩⟩

variable [Scalar α]

/-- **Joining an element** leaves alone what nodes retain. -/
theorem retains_addElement (hne : e.input ≠ e.output) {k : Nat}
    (h : addElement e net = .ok k net') : net.Retains net' := by
  unfold addElement at h
  dsimp only at h
  cases hd : e.kind.drives with
  | false =>
    rw [hd] at h
    cases h
    exact retains_register hne
  | true =>
    rw [hd, if_pos rfl] at h
    obtain ⟨u, net₁, hlock, h⟩ := bind_eq_ok.mp h
    obtain ⟨changed, net₂, hsync, h⟩ := bind_eq_ok.mp h
    cases h
    have he : e ∈ (net.register e).drivers := mem_drivers_register hd
    obtain ⟨n, hn, -, rfl⟩ := changeNode_lock_eq_ok hlock
    obtain ⟨base, before, target, -, hbefore, -, -, rfl⟩ := synchronise_eq_ok hsync
    refine (retains_register hne).trans
      ((retains_setNode hn he ?_).trans (retains_setNode hbefore he ?_)) <;> rfl

end Network

/-! ### All requests -/

variable [Scalar α] {c : Catalogue α} {modelType : Option String}

/-- Adding elements one after the other leaves alone what nodes retain. -/
theorem retains_addAll (hc : c.Regular) : ∀ {rs : List (Request α)} {net net' : Network α},
    (∀ r ∈ rs, r.Valid) → addAll c modelType rs net = .ok () net' → net.Retains net'
  | [], net, net', _, h => by
    cases h
    exact .refl net
  | r :: rs, net, net', hrs, h => by
    obtain ⟨hr, hrs⟩ := List.forall_mem_cons.mp hrs
    obtain ⟨k, net₁, hadd, h⟩ := bind_eq_ok.mp h
    obtain ⟨e, net₂, hlook, hjoin⟩ := bind_eq_ok.mp hadd
    obtain ⟨hmake, rfl⟩ := Network.look_eq_ok_iff.mp hlook
    obtain ⟨w, hfits⟩ := (ElementSpec.made_of_make hr.regular hc hmake).fits
    exact (Network.retains_addElement hfits.ends_ne hjoin).trans (retains_addAll hc hrs h)

end FluxBalance
