import FluxBalance.Proofs.Network.Orientation
import FluxBalance.Proofs.Study.Totality

/-!
# Assignments of potentials

An assignment of potentials solves a network if it meets the boundary conditions, rises across every
driving element by its gain, lets all fluxes be evaluated, and makes the discrepancies of unlocked
nodes vanish. This does not depend on the order and the orientation of the elements.

## Main definitions and results

* `withPotentials`: a network at given potentials;
* `Solves`, `solves_iff`: the potentials at which a network is solved;
* `Reordered.solves`: they do not depend on the order and the orientation of the elements.
-/

namespace FluxBalance.Network

open FluxBalance.Computation

variable {α : Type} [Scalar α] {net a b : Network α} {V : Nat → Nat → α}

/-- The network at given potentials. -/
def withPotentials (net : Network α) (V : Nat → Nat → α) : Network α :=
  { net with nodes := net.nodes.mapIdx fun i n =>
      { n with potential := .ofFn n.components 1 fun c _ => V i c } }

/-- The potentials solve the network. -/
structure Solves (net : Network α) (V : Nat → Nat → α) : Prop where
  /-- Locked nodes that no element drives have the potentials that they are locked at. -/
  boundary : ∀ {i : Nat} {n : Node α}, net.nodes[i]? = some n → n.isLocked = true →
    (∀ e ∈ net.drivers, e.driven ≠ i) → ∀ c < n.components, V i c = n.potential.entry c 0
  /-- From the input to the output of a driving element the potential rises by its gain. -/
  rises : ∀ e ∈ net.drivers, ∀ c < e.gain.rows, V e.output c = V e.input c + e.gain.entry c 0
  /-- The fluxes of all elements can be evaluated. -/
  flows : ∀ e ∈ net.elements.toList,
    ∃ f, flux e (net.withPotentials V) = .ok f (net.withPotentials V)
  /-- The discrepancies of unlocked nodes are zero. -/
  balanced : ∀ {i : Nat} {n : Node α}, net.nodes[i]? = some n → n.isLocked = false →
    ∃ d, discrepancy i (net.withPotentials V) = .ok d (net.withPotentials V) ∧
      ∀ c < n.components, d.entry c 0 = 0

/-! ### Networks at given potentials -/

omit [Scalar α] in
/-- Nothing but the potential of a node is changed by `withPotentials`. -/
theorem getElem?_withPotentials (net : Network α) (V : Nat → Nat → α) (i : Nat) :
    (net.withPotentials V).nodes[i]? = net.nodes[i]?.map fun n =>
      { n with potential := .ofFn n.components 1 fun c _ => V i c } :=
  Array.getElem?_mapIdx

theorem frame_withPotentials (hwf : net.WellFormed) (V : Nat → Nat → α) :
    (net.withPotentials V).frame = net.frame := by
  have hnodes : (net.withPotentials V).nodes.map Node.frame = net.nodes.map Node.frame := by
    refine Array.ext_getElem? fun i => ?_
    rw [Array.getElem?_map, Array.getElem?_map, getElem?_withPotentials, Option.map_map]
    cases hn : net.nodes[i]? with
    | none => rfl
    | some n =>
      refine congrArg some (Node.frame_set_potential ?_)
      rw [DenseMatrix.shape, DenseMatrix.shape, hwf.column hn]
      rfl
  unfold frame
  rw [hnodes]
  rfl

/-- The potentials of `withPotentials` are the given ones at the components that there are. -/
theorem potentialAt_withPotentials (net : Network α) (V : Nat → Nat → α) (i c : Nat) :
    (net.withPotentials V).potentialAt i c =
      if c < (net.width? i).getD 0 then V i c else 0 := by
  unfold potentialAt width?
  rw [getElem?_withPotentials]
  cases net.nodes[i]? with
  | none => rfl
  | some n =>
    dsimp only [Option.map_some, Option.getD_some]
    by_cases hc : c < n.components
    · rw [if_pos hc, DenseMatrix.entry_ofFn _ hc Nat.one_pos]
    · rw [if_neg hc]
      exact DenseMatrix.entry_outside _ fun h => hc h.1

/-- Without loops the `discrepancy` of a node can be evaluated, and it is zero where the balance
is. -/
theorem exists_discrepancy_eq_zero_iff (h : net.Clear) {i : Nat} {n : Node α}
    (hn : net.nodes[i]? = some n) :
    (∃ d, discrepancy i (net.withPotentials V) = .ok d (net.withPotentials V) ∧
      ∀ c < n.components, d.entry c 0 = 0) ↔
    ∀ c < n.components, (net.withPotentials V).balanceAt i c = 0 := by
  have hframe := frame_withPotentials h.wellFormed V
  have hclear := h.of_frame_eq hframe.symm
  have hwidth : (net.withPotentials V).width? i = some n.components :=
    (width?_of_frame_eq hframe i).trans (width?_eq_some.mpr ⟨n, hn, rfl⟩)
  constructor
  · rintro ⟨d, hd, hzero⟩ c hc
    rw [← (tabulates_of_discrepancy hclear.wellFormed hwidth hd).entry c hc, hzero c hc]
  · intro hzero
    obtain ⟨d, hd⟩ := exists_discrepancy hclear.wellFormed hclear.readable hclear.unmarked
      (lt_size_of_width? hwidth) fun hleads => hclear.acyclic (hasLoop_of_leadsToLoop hleads)
    refine ⟨d, hd, fun c hc => ?_⟩
    rw [(tabulates_of_discrepancy hclear.wellFormed hwidth hd).entry c hc, hzero c hc]

/-- **A network is solved where its balances vanish**, unless it has a loop of driving elements. -/
theorem solves_iff (hwf : net.WellFormed) (hord : net.Orderly) (hmarks : net.resolving = []) :
    net.Solves V ↔
      (∀ {i : Nat}, net.Boundary i → ∀ c < (net.width? i).getD 0, V i c = net.potentialAt i c) ∧
      (∀ e ∈ net.drivers, ∀ c < e.gain.rows, V e.output c = V e.input c + e.gain.entry c 0) ∧
      ¬net.HasLoop ∧
      ∀ {i : Nat} {n : Node α}, net.nodes[i]? = some n → n.isLocked = false →
        ∀ c < n.components, (net.withPotentials V).balanceAt i c = 0 := by
  have hframe := frame_withPotentials hwf V
  have hwf' := hwf.of_frame_eq hframe.symm
  have hmarks' : (net.withPotentials V).resolving = [] := hmarks
  have hwidth {i : Nat} {n : Node α} (hn : net.nodes[i]? = some n) :
      net.width? i = some n.components := by rw [width?, hn]; rfl
  constructor
  · intro h
    -- On a loop there is an element whose flux cannot be evaluated.
    have hloop : ¬net.HasLoop := by
      intro hloop
      obtain ⟨e, he, hleads⟩ := ((hasLoop_of_frame_eq hframe).mpr hloop).exists_driver
      obtain ⟨f, hf⟩ := h.flows e (List.mem_filter.mp he).1
      rcases flux_cases hwf' (hord.of_frame_eq hframe.symm).readable hmarks' he with
        ⟨hnot, -⟩ | ⟨-, j, hj⟩
      · exact hnot hleads
      · rw [hf] at hj
        cases hj
    refine ⟨?_, h.rises, hloop, fun {i n} hn hunlocked => ?_⟩
    · rintro i ⟨n, hn, hlocked, hdriven⟩ c hc
      rw [hwidth hn] at hc
      rw [potentialAt_eq hn, h.boundary hn hlocked hdriven c hc]
    · exact (exists_discrepancy_eq_zero_iff ⟨hwf, hord.free, hmarks, hloop⟩ hn).mp
        (h.balanced hn hunlocked)
  · rintro ⟨hboundary, hrises, hloop, hbalanced⟩
    have hclear : net.Clear := ⟨hwf, hord.free, hmarks, hloop⟩
    have hclear' := hclear.of_frame_eq hframe.symm
    refine ⟨fun {i n} hn hlocked hdriven c hc => ?_, hrises, fun e he => exists_flux hclear' he,
      fun {i n} hn hunlocked =>
        (exists_discrepancy_eq_zero_iff hclear hn).mpr (hbalanced hn hunlocked)⟩
    rw [hboundary ⟨n, hn, hlocked, hdriven⟩ c (by rw [hwidth hn]; exact hc), potentialAt_eq hn]

/-! ### Orders and orientations -/

/-- **Solutions do not depend on the order and the orientation of the elements.** -/
theorem Reordered.solves [Scalar.Exact α] (h : a.Reordered b) (hwf : a.WellFormed)
    (hwf' : b.WellFormed) (hord : a.Orderly) (hord' : b.Orderly) (hmarks : a.resolving = [])
    (hmarks' : b.resolving = [])
    (hfixed : ∀ {i : Nat}, a.Boundary i → ∀ c, a.potentialAt i c = b.potentialAt i c)
    (ha : a.Solves V) : b.Solves V := by
  obtain ⟨hboundary, hrises, hloop, hbalanced⟩ := (solves_iff hwf hord hmarks).mp ha
  refine (solves_iff hwf' hord' hmarks').mpr ⟨fun {i} hi c hc => ?_, fun e he c hc => ?_,
    h.not_hasLoop hwf hwf' hord hloop, fun {i n} hn hunlocked c hc => ?_⟩
  · have hi' := (h.boundary i).mpr hi
    rw [hboundary hi' c (by rw [h.width]; exact hc), hfixed hi' c]
  · -- Rises belong to driving elements, which are the same up to order and orientation.
    have hperm := h.perm_filter (fun e => e.kind.drives) (fun e => (e.input, e.output, e.gain))
      (fun _ => rfl) fun _ => rfl
    obtain ⟨f, hf, heq⟩ := List.mem_map.mp (hperm.mem_iff.mpr (List.mem_map_of_mem he))
    simp only [Prod.mk.injEq] at heq
    obtain ⟨hin, hout, hgain⟩ := heq
    rw [← hin, ← hout, ← hgain]
    exact hrises f hf c (hgain ▸ hc)
  · -- The potentials are written into both networks, where balances can be compared.
    have hframe := frame_withPotentials hwf V
    have hframe' := frame_withPotentials hwf' V
    have hV (j k : Nat) :
        (a.withPotentials V).potentialAt j k = (b.withPotentials V).potentialAt j k := by
      rw [potentialAt_withPotentials, potentialAt_withPotentials, h.width]
    have hn' := getElem?_withPotentials b V i
    rw [hn, Option.map_some] at hn'
    refine (h.of_frame_eq hframe.symm hframe'.symm).balanced (hwf.of_frame_eq hframe.symm)
      (hwf'.of_frame_eq hframe'.symm) (hord.of_frame_eq hframe.symm)
      (hord'.of_frame_eq hframe'.symm) (mt (hasLoop_of_frame_eq hframe).mp hloop) hV
      (fun {j m} hm hmunlocked k hk => ?_) hn' hunlocked hc
    obtain ⟨m', hm', hmm'⟩ := getElem?_of_frame_eq hframe hm
    obtain ⟨hshape, hlock, -⟩ := Node.frame_eq_iff.mp hmm'
    exact hbalanced hm' (hlock.symm.trans hmunlocked) k (hk.trans_eq (congrArg Prod.fst hshape))

end FluxBalance.Network
